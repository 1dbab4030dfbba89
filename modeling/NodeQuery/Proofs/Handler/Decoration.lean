import NodeQuery.Proofs.Expr.Values

/-!
# Decorations of what is handed out

While an evaluation runs, no decoration is registered and no document is closed.  Node-sets are made
without decorations and get them on the way out: as arguments of a handler, as the answer of one, and
as the result of the evaluation.  On all three ways a node-set gets the decorations of the same
document, that of its first node and else that of the starting node, so a set that has got them on one
way has the right ones for another.
-/

namespace NodeQuery

variable {σ : Type}

namespace NodeSet

/-- The document that a node-set belongs to: that of its first node while it is open, and else
`fallback`. -/
def owner? (set : NodeSet) (forest : Forest) (fallback : Option DocumentId) : Option DocumentId :=
  (set.first?.bind forest.document?).or fallback

/-- A node-set is decorated exactly if there is a document that it belongs to.  It is then a set of
that document and carries all decorations registered on it. -/
structure DecoratedByOwner (set : NodeSet) (forest : Forest) (fallback : Option DocumentId) :
    Prop where
  decorated_iff : set.isDecorated = true ↔ ∃ owner, set.owner? forest fallback = some owner
  document : ∀ owner, set.owner? forest fallback = some owner → set.document? forest = some owner
  decorations : ∀ owner, set.owner? forest fallback = some owner →
    set.decorations = some (forest.decorations owner)

variable {forest : Forest} {fallback : Option DocumentId}

/-- The document that a node-set belongs to is open if `fallback` is. -/
theorem isOpen_of_owner? {set : NodeSet} {owner : DocumentId}
    (fallbackOpen : ∀ document, fallback = some document → forest.isOpen document = true)
    (belongs : set.owner? forest fallback = some owner) : forest.isOpen owner = true := by
  rcases Option.or_eq_some_iff.mp belongs with ofFirst | ⟨_, ofFallback⟩
  · rcases Option.bind_eq_some_iff.mp ofFirst with ⟨id, _, found⟩
    exact (Option.filter_eq_some_iff.mp found).2
  · exact fallbackOpen owner ofFallback

/-- Decorating a set without decorations gives it those of the document it belongs to. -/
theorem decoratedByOwner_of_bare {set : NodeSet} (bare : set.decorations = none)
    (fallbackOpen : ∀ document, fallback = some document → forest.isOpen document = true) :
    (set.decorate forest fallback).DecoratedByOwner forest fallback := by
  have undecorated : ¬ set.isDecorated = true := by rw [isDecorated, bare]; decide
  cases belongs : set.owner? forest fallback with
  | none =>
      have same : set.decorate forest fallback = set := by
        rw [owner?] at belongs
        rw [decorate, if_neg undecorated, belongs]
      rw [same]
      refine ⟨?_, ?_, ?_⟩
      · rw [belongs]
        refine iff_of_false undecorated ?_
        rintro ⟨_, impossible⟩
        cases impossible
      · rw [belongs]
        exact fun _ impossible => by cases impossible
      · rw [belongs]
        exact fun _ impossible => by cases impossible
  | some owner =>
      have changed : set.decorate forest fallback =
          { set with document := some owner, decorations := some (forest.decorations owner) } := by
        have belongs := belongs
        rw [owner?] at belongs
        rw [decorate, if_neg undecorated, belongs]
      have still : (set.decorate forest fallback).owner? forest fallback = some owner := by
        rw [owner?, first?, nodes_decorate]
        exact belongs
      refine ⟨?_, ?_, ?_⟩
      · rw [still, changed]
        exact iff_of_true rfl ⟨owner, rfl⟩
      · rw [still, changed]
        rintro _ ⟨rfl⟩
        exact Option.filter_eq_some_iff.mpr ⟨rfl, isOpen_of_owner? fallbackOpen belongs⟩
      · rw [still, changed]
        rintro _ ⟨rfl⟩
        rfl

/-- Decorating a set a second time changes nothing. -/
theorem DecoratedByOwner.decorate_eq {set : NodeSet}
    (decorated : set.DecoratedByOwner forest fallback) : set.decorate forest fallback = set := by
  rw [decorate]
  split
  · rfl
  · rename_i bare
    split
    · rfl
    · rename_i owner belongs
      exact absurd (decorated.decorated_iff.mpr ⟨owner, belongs⟩) bare

end NodeSet

/-- Of the core functions, `id` gives a node-set without decorations and the others give none. -/
theorem Registry.core_bare {name : String} {count : Nat} {body : Function}
    (resolved : core.resolve name count = .ok body) {forest : Forest} {site : CallSite}
    {arguments : List Value} {value : Value} (given : body forest site arguments = .ok value) :
    value.Bare := by
  rcases resolve_mem resolved with ⟨registration, named, _, rfl⟩
  have member := List.mem_reverse.mp (List.mem_filter.mp named).1
  rcases Function.scalar_or_elementsById registration member with ⟨_, byId⟩ | scalar
  · rw [byId] at given
    cases arguments with
    | nil => cases given
    | cons argument others =>
        rw [Function.elementsById, Function.unary] at given
        dsimp only at given
        split at given
        · cases given; exact rfl
        · cases given; exact rfl
  · have notSet := scalar forest site arguments value given
    cases value with
    | nodeSet set => exact absurd rfl (notSet set)
    | boolean truth => trivial
    | number amount => trivial
    | string text => trivial

/-- A node-set that has no decorations yet, or those of the document it belongs to. -/
def Value.BareOrByOwner (forest : Forest) (fallback : Option DocumentId) (value : Value) : Prop :=
  ∀ set, value = .nodeSet set →
    set.decorations = none ∨ set.DecoratedByOwner forest fallback

/-- Decorated, such a value has the decorations of the document it belongs to. -/
theorem Value.BareOrByOwner.decorate {forest : Forest} {fallback : Option DocumentId} {value : Value}
    (either : value.BareOrByOwner forest fallback)
    (fallbackOpen : ∀ document, fallback = some document → forest.isOpen document = true)
    {set : NodeSet} (decorated : value.decorate forest fallback = .nodeSet set) :
    set.DecoratedByOwner forest fallback := by
  cases value with
  | nodeSet before =>
      cases decorated
      rcases either before rfl with bare | byOwner
      · exact NodeSet.decoratedByOwner_of_bare bare fallbackOpen
      · rw [byOwner.decorate_eq]
        exact byOwner
  | boolean truth => cases decorated
  | number amount => cases decorated
  | string text => cases decorated

theorem Context.isOpen_of_document? {context : Context σ} {forest : Forest} {document : DocumentId}
    (found : context.document? forest = some document) : forest.isOpen document = true := by
  rcases Option.bind_eq_some_iff.mp found with ⟨id, _, held⟩
  exact (Option.filter_eq_some_iff.mp held).2

/-- With the core functions and bindings that are not decorated, no value of an evaluation has other
decorations than those of the document it belongs to. -/
theorem Context.upholds_bareOrByOwner (forest : Forest) {context : Context σ}
    (core : context.functions = Registry.core)
    (undecorated : ∀ name set, context.binding? name = some (.nodeSet set) →
      set.isDecorated = false) :
    context.Upholds forest (Value.BareOrByOwner forest (context.document? forest)) where
  bare value bare := by
    rintro set rfl
    exact Or.inl bare
  bound name value bound := by
    rintro set rfl
    have none := Option.isSome_eq_false_iff.mp (undecorated name set bound)
    exact Or.inl (Option.isNone_iff_eq_none.mp none)
  computed name count body resolved site arguments value _ given := by
    rw [core] at resolved
    have bare := Registry.core_bare resolved given
    rintro set rfl
    exact Or.inl bare
  decorated value either := by
    intro set decorated
    exact Or.inr (either.decorate (fun _ => Context.isOpen_of_document?) decorated)

namespace Program

/-- Every node-set that a run hands out, be it an argument of a request to the handler or the result
at its end, is decorated exactly if its first node is in an open document or, failing that, the
starting node is, and then with all decorations registered on that document. -/
theorem run_decoratedByOwner (forest : Forest) {context : Context σ}
    (core : context.functions = Registry.core)
    (undecorated : ∀ name set, context.binding? name = some (.nodeSet set) →
      set.isDecorated = false)
    (expression : Expr) (text : String) (state : σ) :
    (∀ request ∈ (run ⟨expression.code, text⟩ forest context.noting (state, [])).2.2, ∀ set,
      HostValue.nodeSet set ∈ request.arguments →
        set.DecoratedByOwner forest (context.document? forest)) ∧
    ∀ set, (run ⟨expression.code, text⟩ forest context state).1 = .ok (.nodeSet set) →
      set.DecoratedByOwner forest (context.document? forest) := by
  rcases (context.upholds_bareOrByOwner forest core undecorated).handed expression text (state, [])
    (fun _ member => absurd member List.not_mem_nil) with ⟨arguments, results⟩
  rw [← (noting_mirrors_run ⟨expression.code, text⟩ forest context (state, [])).1]
  constructor
  · intro request member set listed
    rcases arguments request member _ listed with ⟨value, either, same⟩
    apply either.decorate fun _ => Context.isOpen_of_document?
    rw [Handler.argument] at same
    cases decorated : value.decorate forest (context.document? forest) with
    | nodeSet other => rw [decorated] at same; cases same; rfl
    | boolean truth => rw [decorated] at same; cases same
    | number amount => rw [decorated] at same; cases same
    | string text => rw [decorated] at same; cases same
  · intro set given
    rcases results _ given with ⟨value, either, same⟩
    exact either.decorate (fun _ => Context.isOpen_of_document?) same.symm

end Program

def markedPair : Forest := pairDocument.1.decorate pairDocument.2 ⟨"mark", ⟨0⟩⟩

/-- A context at the document node of the pair, with a variable bound to no nodes. -/
def noneContext : Context Nat where
  node := markedPair.documentRoot? pairDocument.2
  bindings := [("none", .nodeSet {})]
  handler := some reversingHandler

/-- A call on the answer of a call on no nodes. -/
def turnedTwice : Expr := .call "turn" [.call "turn" [.var "none"]]

def nodesOf? : Except Error Value → Option (List NodeId)
  | .ok (.nodeSet set) => some set.nodes
  | _ => none

/-- The answer to the second call has no nodes either, and the decorations of the document of the
starting node. -/
theorem run_decoratedByOwner_none :
    ∃ set, (Program.run ⟨turnedTwice.code, ""⟩ markedPair noneContext 0).1 = .ok (.nodeSet set) ∧
      set.nodes = [] ∧ set.document? markedPair = some pairDocument.2 ∧
      set.decorations = some [⟨"mark", ⟨0⟩⟩] := by
  have undecorated : ∀ name set, noneContext.binding? name = some (.nodeSet set) →
      set.isDecorated = false := by
    intro name set bound
    rcases List.lookup_eq_some_iff.mp bound with ⟨before, after, bindings, _⟩
    have member : (name, Value.nodeSet set) ∈ noneContext.bindings := by
      rw [bindings]
      exact List.mem_append_right before List.mem_cons_self
    cases List.mem_singleton.mp member
    rfl
  have core : noneContext.functions = Registry.core := rfl
  have byOwner :=
    (Program.run_decoratedByOwner markedPair core undecorated turnedTwice "" 0).2
  have empty :
      nodesOf? (Program.run ⟨turnedTwice.code, ""⟩ markedPair noneContext 0).1 = some [] := by
    decide +kernel
  rcases outcome : (Program.run ⟨turnedTwice.code, ""⟩ markedPair noneContext 0).1 with
    error | truth | amount | text | set
  · rw [outcome] at empty; cases empty
  · rw [outcome] at empty; cases empty
  · rw [outcome] at empty; cases empty
  · rw [outcome] at empty; cases empty
  · rw [outcome] at empty
    have noNodes : set.nodes = [] := Option.some.inj empty
    have belongs : set.owner? markedPair (noneContext.document? markedPair) = some pairDocument.2 := by
      rw [NodeSet.owner?, NodeSet.first?, noNodes]
      decide +kernel
    have carried := (byOwner set outcome).decorations pairDocument.2 belongs
    have registered : markedPair.decorations pairDocument.2 = [⟨"mark", ⟨0⟩⟩] := by decide +kernel
    rw [registered] at carried
    exact ⟨set, rfl, noNodes, (byOwner set outcome).document pairDocument.2 belongs, carried⟩

end NodeQuery
