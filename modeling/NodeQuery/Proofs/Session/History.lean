import NodeQuery.Proofs.Session.Snapshot

/-!
# Decorations along a session

What a user does next registers nothing, or one decoration behind all others; it never takes one back.
So a node-set that was decorated in a session carries the same registrations in every session that can
follow, and calling it by a name runs the last of them with that name.
-/

namespace NodeQuery

/-- The name of a decoration with its operation, which has to be stored. -/
def Workspace.resolve (workspace : Workspace) (decoration : Decoration) :
    Option (String × Operation) :=
  (workspace.operations[decoration.operation.index]?).map fun operation =>
    (decoration.name, operation)

section
variable {workspace : Workspace}

/-- Decorations that stand for registrations have their names. -/
theorem Workspace.names_of_resolve {decorations : List Decoration} {entries : List Registered}
    (resolved : decorations.map workspace.resolve =
      entries.map fun entry => some (entry.name, entry.operation)) :
    decorations.map (·.name) = entries.map (·.name) := by
  induction decorations generalizing entries with
  | nil =>
      cases entries with
      | nil => rfl
      | cons entry entries => cases resolved
  | cons decoration decorations ih =>
      cases entries with
      | nil => cases resolved
      | cons entry entries =>
          rw [List.map_cons, List.map_cons, List.cons.injEq] at resolved
          rcases Option.map_eq_some_iff.mp resolved.1 with ⟨operation, _, same⟩
          rw [List.map_cons, List.map_cons, ih resolved.2, (Prod.mk.inj same).1]

/-- Of decorations that stand for registrations, the first with a name has the operation of the first
registration with that name. -/
theorem Workspace.find?_resolve (name : String) {decorations : List Decoration}
    {entries : List Registered}
    (resolved : decorations.map workspace.resolve =
      entries.map fun entry => some (entry.name, entry.operation)) :
    ((decorations.find? fun decoration => decoration.name == name).bind fun decoration =>
        workspace.operations[decoration.operation.index]?) =
      (entries.find? fun entry => entry.name == name).map (·.operation) := by
  induction decorations generalizing entries with
  | nil =>
      cases entries with
      | nil => rfl
      | cons entry entries => cases resolved
  | cons decoration decorations ih =>
      cases entries with
      | nil => cases resolved
      | cons entry entries =>
          rw [List.map_cons, List.map_cons, List.cons.injEq] at resolved
          rcases Option.map_eq_some_iff.mp resolved.1 with ⟨operation, stored, same⟩
          rcases Prod.mk.inj same with ⟨sameName, rfl⟩
          rw [List.find?_cons, List.find?_cons, sameName]
          cases entry.name == name with
          | true => exact stored
          | false => exact ih resolved.2

/-- Calling a node-set by a name runs the last registration with that name among those that its
decorations stand for. -/
theorem Workspace.callDecoration_of_resolve {set : NodeSet} {decorations : List Decoration}
    (carried : set.decorations = some decorations) {entries : List Registered}
    (resolved : decorations.map workspace.resolve =
      entries.map fun entry => some (entry.name, entry.operation))
    (name : String) (arguments : List HostValue) :
    workspace.callDecoration set name arguments =
      match entries.reverse.find? fun entry => entry.name == name with
      | none => .error (.undefinedFunction name)
      | some entry =>
        (entry.operation.run workspace.forest set arguments).mapError (.handlerFailed name) := by
  have reversed : decorations.reverse.map workspace.resolve =
      entries.reverse.map fun entry => some (entry.name, entry.operation) := by
    rw [List.map_reverse, List.map_reverse, resolved]
  have found := Workspace.find?_resolve name reversed
  rw [callDecoration, NodeSet.decoration?, carried, Option.bind_some, found]
  cases entries.reverse.find? fun entry => entry.name == name with
  | none => rfl
  | some entry => rfl

end

namespace Session

/-- A node-set is linked to a document and carries the registrations listed, which are the first ones
made on the document.  Called by a name among them it runs the last of that name, and called by any
other name it runs nothing. -/
structure Carries (session : Session) (set : NodeSet) (document : DocumentId)
    (entries : List Registered) : Prop where
  linked : set.document = some document
  first : entries <+: session.registeredOn document
  names : set.decorations.map (·.map Decoration.name) = some (entries.map Registered.name)
  runs : ∀ before entry after, entries = before ++ entry :: after →
    (∀ later ∈ after, later.name ≠ entry.name) → ∀ arguments,
      session.workspace.callDecoration set entry.name arguments =
        (entry.operation.run session.forest set arguments).mapError (.handlerFailed entry.name)
  runsOnly : ∀ name, (∀ entry ∈ entries, entry.name ≠ name) → ∀ arguments,
    session.workspace.callDecoration set name arguments = .error (.undefinedFunction name)

/-!
## What every session satisfies

Every step keeps these three, and so does a whole session.
-/

/-- The decorations of the documents stand for what was registered, the node-sets handed out are
snapshots of these, and the node-sets kept by name are among them. -/
structure Consistent (session : Session) : Prop where
  resolved : ∀ document, (session.forest.decorations document).map session.workspace.resolve =
    (session.registeredOn document).map fun entry => some (entry.name, entry.operation)
  snapshots : ∀ set ∈ session.sets, set.IsSnapshot session.forest
  saved : ∀ entry ∈ session.workspace.sets, entry.2 ∈ session.sets

/-- What was registered in a session is registered in another, in front of all else. -/
structure Extends (session later : Session) : Prop where
  registered : session.registered <+: later.registered
  decorations : ∀ document,
    session.forest.decorations document <+: later.forest.decorations document

theorem Extends.refl (session : Session) : session.Extends session :=
  ⟨List.prefix_rfl, fun _ => List.prefix_rfl⟩

theorem Extends.trans {first second third : Session} (before : first.Extends second)
    (after : second.Extends third) : first.Extends third :=
  ⟨before.registered.trans after.registered,
    fun document => (before.decorations document).trans (after.decorations document)⟩

theorem consistent_empty : Consistent {} where
  resolved _ := rfl
  snapshots _ member := absurd member List.not_mem_nil
  saved _ member := absurd member List.not_mem_nil

theorem registeredOn_register (session : Session) (entry : Registered) (document : DocumentId) :
    (session.register entry).registeredOn document =
      if document = entry.document then session.registeredOn document ++ [entry]
      else session.registeredOn document := by
  rw [registeredOn, register, List.filter_append, ← registeredOn]
  split
  · rename_i same
    have here : (entry.document == document) = true := beq_iff_eq.mpr same.symm
    simp only [List.filter_cons, here, if_true, List.filter_nil]
  · rename_i apart
    have elsewhere : (entry.document == document) = false := beq_eq_false_iff_ne.mpr (Ne.symm apart)
    simp only [List.filter_cons, elsewhere, Bool.false_eq_true, if_false, List.filter_nil,
      List.append_nil]

namespace Consistent

variable {session : Session} (consistent : session.Consistent)
include consistent

/-- A step of the workspace that keeps decorations. -/
theorem inWorkspace {workspace : Workspace}
    (kept : session.workspace.KeepsDecorations workspace) :
    (session.inWorkspace workspace).Consistent ∧ session.Extends (session.inWorkspace workspace) := by
  have same (document : DocumentId) : (session.inWorkspace workspace).forest.decorations document =
      session.forest.decorations document := kept.decorations document
  have grown (document : DocumentId) : session.forest.decorations document <+:
      (session.inWorkspace workspace).forest.decorations document :=
    (same document).symm ▸ List.prefix_rfl
  refine ⟨⟨?_, ?_, ?_⟩, List.prefix_rfl, grown⟩
  · intro document
    have sameResolve : workspace.resolve = session.workspace.resolve := by
      funext decoration
      rw [Workspace.resolve, Workspace.resolve, kept.operations]
    rw [same document]
    change List.map workspace.resolve _ = _
    rw [sameResolve]
    exact consistent.resolved document
  · exact fun set member => (consistent.snapshots set member).mono grown
  · intro entry member
    change entry ∈ workspace.sets at member
    rw [kept.sets] at member
    exact consistent.saved entry member

/-- Node-sets that are handed out have to be snapshots. -/
theorem handOut {sets : List NodeSet} (snapshots : ∀ set ∈ sets, set.IsSnapshot session.forest) :
    (session.handOut sets).Consistent ∧ session.Extends (session.handOut sets) := by
  refine ⟨⟨consistent.resolved, ?_, ?_⟩, List.prefix_rfl, fun _ => List.prefix_rfl⟩
  · intro set member
    rcases List.mem_append.mp member with new | old
    · exact snapshots set new
    · exact consistent.snapshots set old
  · exact fun entry member => List.mem_append_right sets (consistent.saved entry member)

/-- A node-set that is kept by name has to be one handed out before. -/
theorem saveSet {set : NodeSet} (held : set ∈ session.sets) (name : String) :
    (session.inWorkspace (session.workspace.saveSet name set)).Consistent ∧
      session.Extends (session.inWorkspace (session.workspace.saveSet name set)) := by
  refine ⟨⟨consistent.resolved, consistent.snapshots, ?_⟩, List.prefix_rfl, fun _ => List.prefix_rfl⟩
  intro entry member
  rcases List.mem_cons.mp member with same | other
  · subst same
    exact held
  · exact consistent.saved entry (List.mem_filter.mp other).1

/-- The decorations registered so far still stand for the same operations after one more is
stored. -/
theorem resolve_registerDecoration (entry : Registered) (document : DocumentId) :
    (session.forest.decorations document).map
        (session.workspace.registerDecoration entry.document entry.name entry.operation).resolve =
      (session.registeredOn document).map fun entry => some (entry.name, entry.operation) := by
  rw [← consistent.resolved document]
  apply List.map_congr_left
  intro decoration member
  have stored : session.workspace.resolve decoration ∈
      (session.registeredOn document).map fun entry => some (entry.name, entry.operation) := by
    rw [← consistent.resolved document]
    exact List.mem_map_of_mem member
  rcases List.mem_map.mp stored with ⟨other, _, resolved⟩
  rcases Option.map_eq_some_iff.mp resolved.symm with ⟨operation, found, _⟩
  have bound := (Array.getElem?_eq_some_iff.mp found).1
  rw [Workspace.resolve, Workspace.resolve]
  change Option.map _ (session.workspace.operations.push entry.operation)[_]? = _
  rw [Array.getElem?_push_lt bound, Array.getElem?_eq_getElem bound]

/-- Registering a decoration on an open document. -/
theorem register (entry : Registered) (isOpen : session.forest.isOpen entry.document = true) :
    (session.register entry).Consistent ∧ session.Extends (session.register entry) := by
  have shown (document : DocumentId) : (session.register entry).forest.decorations document = _ :=
    session.forest.decorations_decorate isOpen
      ⟨entry.name, ⟨session.workspace.operations.size⟩⟩ document
  have grown (document : DocumentId) : session.forest.decorations document <+:
      (session.register entry).forest.decorations document := by
    rw [shown document]
    split
    · rename_i same
      rw [same]
      exact List.prefix_append _ _
    · exact List.prefix_rfl
  refine ⟨⟨?_, ?_, consistent.saved⟩, List.prefix_append _ _, grown⟩
  · intro document
    have older := consistent.resolve_registerDecoration entry document
    rw [shown document, registeredOn_register]
    change List.map (session.workspace.registerDecoration entry.document entry.name
      entry.operation).resolve _ = _
    split
    · rename_i same
      subst same
      have latest : (session.workspace.registerDecoration entry.document entry.name
          entry.operation).resolve ⟨entry.name, ⟨session.workspace.operations.size⟩⟩ =
          some (entry.name, entry.operation) := by
        rw [Workspace.resolve]
        change Option.map _ (session.workspace.operations.push entry.operation)[_]? = _
        rw [Array.getElem?_push_size]
        rfl
      rw [List.map_append, List.map_append, older, List.map_singleton, List.map_singleton, latest]
    · exact older
  · exact fun set member => (consistent.snapshots set member).mono grown

end Consistent

/-- Whatever the user does next, the session stays consistent, and no registration is lost. -/
theorem Next.consistent {session later : Session} (next : session.Next later)
    (consistent : session.Consistent) : later.Consistent ∧ session.Extends later := by
  cases next with
  | opened name draft opens =>
      exact consistent.inWorkspace (Workspace.keepsDecorations_openDocument opens)
  | planted name draft plants =>
      exact consistent.inWorkspace (Workspace.keepsDecorations_addTree plants)
  | dropped name => exact consistent.inWorkspace (Workspace.keepsDecorations_drop _ name)
  | settled others => exact consistent.inWorkspace (Workspace.keepsDecorations_settle _ others)
  | registered entry isOpen => exact consistent.register entry isOpen
  | made ids =>
      exact consistent.handOut (List.forall_mem_singleton.mpr (NodeSet.isSnapshot_of_bare rfl))
  | evaluated compiled context state bindings functions =>
      have upholds := Context.upholds_isSnapshot consistent.snapshots bindings functions
      exact consistent.handOut
        (Evaluation.isSnapshot_of_mem_setsHanded (upholds.keeps_compiled compiled) state)
  | selected selector node handler state =>
      apply consistent.handOut
      apply Evaluation.isSnapshot_of_mem_setsHanded
      apply (Query.select_keeps session.forest selector node handler).bind
      intro set snapshot
      apply Evaluation.Keeps.pure
      rintro _ ⟨rfl⟩
      exact snapshot
  | invoked handler function arguments document state made =>
      have decorable := Value.decorable_isSnapshot session.forest document
      apply consistent.handOut
      apply Evaluation.isSnapshot_of_mem_setsHanded
      apply decorable.invoke handler function
      exact fun argument member set equal =>
        (made argument member set equal).isSnapshot consistent.snapshots
  | decorated held fallback =>
      have snapshot := (consistent.snapshots _ held).decorate fallback
      exact consistent.handOut (List.forall_mem_singleton.mpr snapshot)
  | saved held name => exact consistent.saveSet held name

theorem Reaches.consistent {session later : Session} (reaches : session.Reaches later)
    (consistent : session.Consistent) : later.Consistent ∧ session.Extends later := by
  induction reaches with
  | refl => exact ⟨consistent, Extends.refl session⟩
  | tail _ next ih =>
      rcases next.consistent ih.1 with ⟨still, grown⟩
      exact ⟨still, ih.2.trans grown⟩

/-- In a consistent session decorations that come first on a document stand for the registrations
that come first. -/
theorem Consistent.resolve_take {session : Session} (consistent : session.Consistent)
    {document : DocumentId} {decorations : List Decoration}
    (first : decorations <+: session.forest.decorations document) :
    decorations.map session.workspace.resolve =
      ((session.registeredOn document).take decorations.length).map
        fun entry => some (entry.name, entry.operation) := by
  rw [List.map_take, ← consistent.resolved document, ← List.map_take,
    ← List.prefix_iff_eq_take.mp first]

/-- A node-set carries the registrations that its decorations stand for. -/
theorem carries_of_resolve {session : Session} {set : NodeSet} {document : DocumentId}
    {entries : List Registered} {decorations : List Decoration}
    (linked : set.document = some document) (carried : set.decorations = some decorations)
    (first : entries <+: session.registeredOn document)
    (resolved : decorations.map session.workspace.resolve =
      entries.map fun entry => some (entry.name, entry.operation)) :
    session.Carries set document entries where
  linked := linked
  first := first
  names := by rw [carried, Option.map_some, Workspace.names_of_resolve resolved]
  runs before entry after split others arguments := by
    have skipped : after.reverse.find? (fun later => later.name == entry.name) = none := by
      apply List.find?_eq_none.mpr
      intro later member same
      exact others later (List.mem_reverse.mp member) (eq_of_beq same)
    have last : entries.reverse.find? (fun other => other.name == entry.name) = some entry := by
      rw [split, List.reverse_append, List.reverse_cons, List.append_assoc, List.find?_append,
        skipped, Option.none_or, List.singleton_append, List.find?_cons, beq_self_eq_true]
    rw [Workspace.callDecoration_of_resolve carried resolved, last, forest]
  runsOnly name others arguments := by
    have none : entries.reverse.find? (fun entry => entry.name == name) = none := by
      apply List.find?_eq_none.mpr
      intro entry member same
      exact others entry (List.mem_reverse.mp member) (eq_of_beq same)
    rw [Workspace.callDecoration_of_resolve carried resolved, none]

/-- A decorated node-set carries the first registrations of the document it is linked to, the same
ones in all sessions to come, and while the document is open, its nodes respond to every name that the
node-set responds to. -/
theorem decorated_carries {session : Session} (reached : Reaches {} session) {set : NodeSet}
    (held : set ∈ session.sets ∨ ∃ name, (name, set) ∈ session.workspace.sets)
    (decorated : set.isDecorated = true) :
    ∃ document entries, ∀ later, session.Reaches later →
      later.Carries set document entries ∧
      ∀ name, set.respondsTo name = true →
        (∃ decoration ∈ later.forest.decorations document, decoration.name = name) ∧
        ∀ id, later.forest.document? id = some document → later.forest.respondsTo id name = true := by
  have consistent := (reached.consistent consistent_empty).1
  have member : set ∈ session.sets := by
    rcases held with handed | ⟨name, saved⟩
    · exact handed
    · exact consistent.saved _ saved
  rcases Option.isSome_iff_exists.mp decorated with ⟨decorations, carried⟩
  rcases consistent.snapshots set member decorations carried with ⟨document, linked, first⟩
  have asMany : decorations.length ≤ (session.registeredOn document).length := by
    have sameLength := congrArg List.length (consistent.resolved document)
    rw [List.length_map, List.length_map] at sameLength
    rw [← sameLength]
    exact first.length_le
  refine ⟨document, (session.registeredOn document).take decorations.length, ?_⟩
  intro later reaches
  rcases reaches.consistent consistent with ⟨laterConsistent, grown⟩
  have stillFirst := first.trans (grown.decorations document)
  have registeredFirst : session.registeredOn document <+: later.registeredOn document :=
    grown.registered.filter _
  constructor
  · apply carries_of_resolve linked carried ((List.take_prefix _ _).trans registeredFirst)
    rcases registeredFirst with ⟨more, all⟩
    rw [laterConsistent.resolve_take stillFirst, ← all, List.take_append_of_le_length asMany]
  · intro name responds
    rw [NodeSet.respondsTo, NodeSet.decoration?, carried, Option.bind_some] at responds
    rcases Option.isSome_iff_exists.mp responds with ⟨decoration, found⟩
    have listed : decoration ∈ later.forest.decorations document :=
      stillFirst.subset (List.mem_reverse.mp (List.mem_of_find?_eq_some found))
    have named : (decoration.name == name) = true :=
      List.find?_some (p := fun decoration : Decoration => decoration.name == name) found
    refine ⟨⟨decoration, listed, eq_of_beq named⟩, ?_⟩
    intro id inside
    rw [Forest.respondsTo, inside]
    exact List.any_eq_true.mpr ⟨decoration, listed, named⟩

end Session

def pairWorkspace : Workspace :=
  ((({} : Workspace).openDocument "pair" pairDraft).map (·.1)).getD {}

/-- An operation under the name `mark` that says which it is. -/
def markAs (word : String) : Registered where
  document := pairDocument.2
  name := "mark"
  operation := { run := fun _ _ _ => .ok (.text word) }

/-- A session in which `mark` has been registered twice. -/
def markedTwice : Session :=
  ((Session.inWorkspace {} pairWorkspace).register (markAs "first")).register (markAs "second")

def markedSet : NodeSet := ({} : NodeSet).decorate markedTwice.forest (some pairDocument.2)

/-- A session in which that set has been handed out. -/
def markedSession : Session := (markedTwice.handOut [{}]).handOut [markedSet]

/-- After a third registration of the name the set still runs the second. -/
theorem Session.decorated_carries_mark :
    Reaches {} markedSession ∧ markedSet ∈ markedSession.sets ∧ markedSet.isDecorated = true ∧
      (markedSession.register (markAs "third")).workspace.callDecoration markedSet "mark" [] =
        .ok (.text "second") := by
  have isOpen : pairWorkspace.forest.isOpen pairDocument.2 = true := by decide +kernel
  have reached : Reaches {} markedSession := by
    have opened : Reaches {} (Session.inWorkspace {} pairWorkspace) :=
      .single (.opened "pair" pairDraft rfl)
    have once := opened.tail (.registered (markAs "first") isOpen)
    have twice := once.tail (.registered (markAs "second") (by decide +kernel))
    have made := twice.tail (.made [])
    exact made.tail (.decorated List.mem_cons_self (some pairDocument.2))
  have held : markedSet ∈ markedSession.sets := List.mem_cons_self
  have decorated : markedSet.isDecorated = true := rfl
  refine ⟨reached, held, decorated, ?_⟩
  rcases Session.decorated_carries reached (Or.inl held) decorated with ⟨document, entries, carries⟩
  have now := (carries markedSession .refl).1
  have later := (carries (markedSession.register (markAs "third"))
    (.single (.registered (markAs "third") (by decide +kernel)))).1
  have linked : document = pairDocument.2 := Option.some.inj (now.linked.symm.trans rfl)
  subst linked
  have two : entries.length = 2 := by
    have carried : markedSet.decorations = some [⟨"mark", ⟨0⟩⟩, ⟨"mark", ⟨1⟩⟩] := by decide +kernel
    have names := now.names
    rw [carried] at names
    have lengths := congrArg List.length (Option.some.inj names)
    rw [List.length_map, List.length_map] at lengths
    exact lengths.symm
  have all : entries = [markAs "first"] ++ markAs "second" :: [] := by
    have registered : markedSession.registeredOn pairDocument.2 =
        [markAs "first", markAs "second"] := rfl
    have first := now.first
    rw [registered] at first
    exact first.eq_of_length two
  exact later.runs _ _ _ all (fun _ member => absurd member List.not_mem_nil) []

end NodeQuery
