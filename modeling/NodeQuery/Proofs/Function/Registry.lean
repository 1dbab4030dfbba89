import Mathlib.Data.List.Sort
import NodeQuery.Function.Registry

/-!
# Histories of a registry

Functions are registered one after the other, under any names and for any ranges of argument counts.
What a call is resolved to is told from this history alone: by the latest registration that is meant
for the call, by the absence of the name, or by the counts that the name was registered for, as far as
there is room to list them.
-/

namespace NodeQuery

/-- A registration as it is asked for. -/
inductive Registering where
  | exactly (name : String) (arity : Nat) (function : Function)
  | variadic (name : String) (least : Nat) (function : Function)
  | ranged (name : String) (least : Nat) (most : Option Nat) (function : Function)

namespace Registering

def name : Registering → String
  | exactly name _ _ | variadic name _ _ | ranged name _ _ _ => name

def function : Registering → Function
  | exactly _ _ function | variadic _ _ function | ranged _ _ _ function => function

/-- Whether the function is meant for calls with `count` arguments. -/
def Covers : Registering → Nat → Prop
  | exactly _ arity _, count => count = arity
  | variadic _ least _, count => least ≤ count
  | ranged _ least most _, count => least ≤ count ∧ ∀ bound, most = some bound → count ≤ bound

def IsBounded : Registering → Prop
  | exactly .. => True
  | variadic .. => False
  | ranged _ _ most _ => most ≠ none

def width : Registering → Nat
  | exactly .. => 1
  | variadic .. | ranged _ _ none _ => 0
  | ranged _ least (some most) _ => most + 1 - least

def register (registry : Registry) : Registering → Registry
  | exactly name arity function => registry.register name arity function
  | variadic name least function => registry.registerVariadic name least function
  | ranged name least most function => registry.registerRange name least most function

/-- What a registry keeps of a registration. -/
def entry : Registering → Registration
  | exactly name arity function => ⟨name, arity, some arity, function⟩
  | variadic name least function => ⟨name, least, none, function⟩
  | ranged name least most function => ⟨name, least, most, function⟩

theorem registrations_register (registry : Registry) (asked : Registering) :
    (register registry asked).registrations = asked.entry :: registry.registrations := by
  cases asked <;> rfl

theorem name_entry (asked : Registering) : asked.entry.name = asked.name := by
  cases asked <;> rfl

theorem function_entry (asked : Registering) : asked.entry.function = asked.function := by
  cases asked <;> rfl

theorem accepts_entry (asked : Registering) (count : Nat) :
    asked.entry.accepts count = true ↔ asked.Covers count := by
  cases asked with
  | exactly name arity function =>
      change (decide (arity ≤ count) && decide (count ≤ arity)) = true ↔ count = arity
      rw [Bool.and_eq_true, decide_eq_true_iff, decide_eq_true_iff]
      omega
  | variadic name least function =>
      change (decide (least ≤ count) && true) = true ↔ least ≤ count
      rw [Bool.and_true, decide_eq_true_iff]
  | ranged name least most function =>
      cases most with
      | none =>
          change (decide (least ≤ count) && true) = true ↔ _
          rw [Bool.and_true, decide_eq_true_iff]
          exact (and_iff_left fun _ none => by cases none).symm
      | some most =>
          change (decide (least ≤ count) && decide (count ≤ most)) = true ↔ _
          rw [Bool.and_eq_true, decide_eq_true_iff, decide_eq_true_iff]
          simp [Covers]

theorem width_entry (asked : Registering) : asked.entry.width = asked.width := by
  cases asked with
  | exactly name arity function => exact Nat.add_sub_cancel_left arity 1
  | variadic name least function => rfl
  | ranged name least most function => cases most <;> rfl

theorem mem_boundedCounts_entry (asked : Registering) (count : Nat) :
    count ∈ asked.entry.boundedCounts ↔ asked.IsBounded ∧ asked.Covers count := by
  rw [Registration.boundedCounts, width_entry, List.mem_range'_1]
  cases asked with
  | exactly name arity function =>
      simp only [entry, width, IsBounded, Covers, true_and]
      omega
  | variadic name least function => simp [entry, width, IsBounded]
  | ranged name least most function =>
      cases most with
      | none => simp [entry, width, IsBounded]
      | some bound =>
          simp only [entry, width, IsBounded, Covers, ne_eq, reduceCtorEq, not_false_eq_true,
            Option.some.injEq, forall_eq', true_and]
          omega

end Registering

theorem mem_insertAscending {number other : Nat} {numbers : List Nat} :
    other ∈ insertAscending number numbers ↔ other = number ∨ other ∈ numbers := by
  induction numbers with
  | nil => simp [insertAscending]
  | cons first rest ih =>
      rw [insertAscending]
      split
      · rw [List.mem_cons]
      · split
        · rename_i same
          rw [same, List.mem_cons]
          exact ⟨Or.inr, fun either => either.elim Or.inl id⟩
        · rw [List.mem_cons, ih, List.mem_cons, or_left_comm]

theorem pairwise_insertAscending (number : Nat) {numbers : List Nat}
    (ascending : numbers.Pairwise (· < ·)) : (insertAscending number numbers).Pairwise (· < ·) := by
  induction numbers with
  | nil => exact List.pairwise_singleton _ _
  | cons first rest ih =>
      rcases List.pairwise_cons.mp ascending with ⟨below, later⟩
      rw [insertAscending]
      split
      · rename_i less
        refine List.pairwise_cons.mpr ⟨fun other member => ?_, ascending⟩
        rcases List.mem_cons.mp member with same | among
        · omega
        · exact Nat.lt_trans less (below other among)
      · split
        · exact ascending
        · refine List.pairwise_cons.mpr ⟨fun other member => ?_, ih later⟩
          rcases mem_insertAscending.mp member with same | among
          · omega
          · exact below other among

theorem mem_foldr_insertAscending {number : Nat} {numbers : List Nat} :
    number ∈ numbers.foldr insertAscending [] ↔ number ∈ numbers := by
  induction numbers with
  | nil => rfl
  | cons first rest ih => rw [List.foldr_cons, mem_insertAscending, ih, List.mem_cons]

theorem pairwise_foldr_insertAscending (numbers : List Nat) :
    (numbers.foldr insertAscending []).Pairwise (· < ·) := by
  induction numbers with
  | nil => exact List.Pairwise.nil
  | cons first rest ih => exact pairwise_insertAscending first ih

namespace Registry

section Resolve

variable (registry : Registry) (name : String) (count : Nat)

/-- The four ways in which a call is resolved. -/
theorem resolve_eq : registry.resolve name count =
    if registry.named name = [] then .error (.unknown name)
    else match (registry.named name).find? (·.accepts count) with
      | some registration => .ok registration.function
      | none => match listCounts? (registry.named name) with
        | some available => .error (.wrongArity name available)
        | none => .error .capacityOverflow := by
  rw [resolve]
  split
  · rename_i none
    rw [none, if_pos rfl]
  · rename_i known
    exact (if_neg known).symm

theorem resolve_eq_ok_iff (function : Function) :
    registry.resolve name count = .ok function ↔
      ∃ registration, (registry.named name).find? (·.accepts count) = some registration ∧
        registration.function = function := by
  rw [resolve_eq]
  split
  · rename_i none
    simp [none]
  · split
    · rename_i registration found
      simp [found]
    · rename_i missed
      rw [missed]
      split <;> simp

theorem resolve_eq_unknown_iff (reported : String) :
    registry.resolve name count = .error (.unknown reported) ↔
      reported = name ∧ registry.named name = [] := by
  rw [resolve_eq]
  split
  · rename_i none
    rw [Except.error.injEq, Unresolved.unknown.injEq, eq_comm]
    exact (and_iff_left none).symm
  · rename_i known
    split
    · simp [known]
    · split <;> simp [known]

theorem resolve_eq_wrongArity_iff (reported : String) (counts : List Nat) :
    registry.resolve name count = .error (.wrongArity reported counts) ↔
      reported = name ∧ registry.named name ≠ [] ∧
        (registry.named name).find? (·.accepts count) = none ∧
        listCounts? (registry.named name) = some counts := by
  rw [resolve_eq]
  split
  · rename_i none
    simp [none]
  · rename_i known
    split
    · rename_i found
      simp [found]
    · rename_i missed
      split
      · rename_i available listed
        simp [known, missed, listed, eq_comm]
      · rename_i overfull
        simp [overfull]

theorem resolve_eq_capacityOverflow_iff :
    registry.resolve name count = .error .capacityOverflow ↔
      registry.named name ≠ [] ∧ (registry.named name).find? (·.accepts count) = none ∧
        listCounts? (registry.named name) = none := by
  rw [resolve_eq]
  split
  · rename_i none
    simp [none]
  · rename_i known
    split
    · rename_i found
      simp [found]
    · rename_i missed
      split
      · rename_i listed
        simp [listed]
      · rename_i overfull
        simp [known, missed, overfull]

end Resolve

variable {registry : Registry} {name : String} {count : Nat}

/-- What a registry resolves a call to is the function of one of the registrations of the name, one that
accepts the number of arguments. -/
theorem resolve_mem {body : Function} (resolved : registry.resolve name count = .ok body) :
    ∃ registration ∈ registry.named name, registration.accepts count = true ∧
      registration.function = body := by
  rcases (resolve_eq_ok_iff registry name count body).mp resolved with ⟨registration, found, same⟩
  have accepted : registration.accepts count = true := by simpa using List.find?_some found
  exact ⟨registration, List.mem_of_find?_eq_some found, accepted, same⟩

/-- A function is unknown only where its name was never registered. -/
theorem contains_of_unknown {other : String}
    (unresolved : registry.resolve name count = .error (.unknown other)) :
    registry.contains name = false := by
  rw [contains, ((resolve_eq_unknown_iff registry name count other).mp unresolved).2]
  rfl

theorem resolve_of_unregistered (unregistered : registry.contains name = false) (count : Nat) :
    registry.resolve name count = .error (.unknown name) := by
  rw [contains, Bool.not_eq_false', List.isEmpty_iff] at unregistered
  exact (resolve_eq_unknown_iff registry name count name).mpr ⟨rfl, unregistered⟩

def ofHistory (history : List Registering) : Registry := history.foldl Registering.register {}

/-- The function that a history offers for a call: that of the latest registration of the name that
covers the number of arguments. -/
def Offers (history : List Registering) (name : String) (count : Nat) (function : Function) : Prop :=
  ∃ earlier asked later, history = earlier ++ asked :: later ∧ asked.name = name ∧
    asked.Covers count ∧ asked.function = function ∧
    ∀ other ∈ later, other.name = name → ¬ other.Covers count

/-- How many counts the registrations of a name with a limit cover, each taken as often as it is
covered. -/
def gathered (history : List Registering) (name : String) : Nat :=
  total ((history.filter fun asked => asked.name == name).map Registering.width)

/-- The counts that the registrations of a name with a limit cover, ascending. -/
def IsAvailable (history : List Registering) (name : String) (counts : List Nat) : Prop :=
  counts.Pairwise (· < ·) ∧
    ∀ count, count ∈ counts ↔
      ∃ asked ∈ history, asked.name = name ∧ asked.IsBounded ∧ asked.Covers count

variable {history : List Registering}

theorem registrations_ofHistory (history : List Registering) :
    (ofHistory history).registrations = (history.map Registering.entry).reverse := by
  have step (registry : Registry) : (history.foldl Registering.register registry).registrations =
      (history.map Registering.entry).reverse ++ registry.registrations := by
    induction history generalizing registry with
    | nil => rfl
    | cons asked later ih =>
        rw [List.foldl_cons, ih, Registering.registrations_register, List.map_cons,
          List.reverse_cons, List.append_assoc]
        rfl
  exact (step {}).trans (List.append_nil _)

theorem mem_named_ofHistory {registration : Registration} :
    registration ∈ (ofHistory history).named name ↔
      ∃ asked ∈ history, asked.name = name ∧ asked.entry = registration := by
  rw [named, registrations_ofHistory, List.mem_filter, List.mem_reverse, List.mem_map, beq_iff_eq]
  constructor
  · rintro ⟨⟨asked, member, rfl⟩, same⟩
    exact ⟨asked, member, asked.name_entry ▸ same, rfl⟩
  · rintro ⟨asked, member, same, rfl⟩
    exact ⟨⟨asked, member, rfl⟩, asked.name_entry ▸ same⟩

theorem named_ofHistory_eq_nil :
    (ofHistory history).named name = [] ↔ ∀ asked ∈ history, asked.name ≠ name := by
  rw [List.eq_nil_iff_forall_not_mem]
  constructor
  · intro none asked member same
    exact none asked.entry (mem_named_ofHistory.mpr ⟨asked, member, same, rfl⟩)
  · intro absent registration member
    rcases mem_named_ofHistory.mp member with ⟨asked, among, same, _⟩
    exact absent asked among same

/-- The first registration that is found is the latest that was asked for. -/
theorem find?_named_ofHistory (registration : Registration) :
    ((ofHistory history).named name).find? (·.accepts count) = some registration ↔
      ∃ earlier asked later, history = earlier ++ asked :: later ∧ asked.name = name ∧
        asked.Covers count ∧ asked.entry = registration ∧
        ∀ other ∈ later, other.name = name → ¬ other.Covers count := by
  have meant (asked : Registering) :
      decide ((asked.entry.name == name) = true ∧ asked.entry.accepts count = true) = true ↔
        asked.name = name ∧ asked.Covers count := by
    rw [decide_eq_true_iff, beq_iff_eq, asked.name_entry, asked.accepts_entry]
  rw [named, registrations_ofHistory, List.find?_filter, ← List.map_reverse, List.find?_map,
    Option.map_eq_some_iff]
  simp only [List.find?_eq_some_iff_append, Function.comp_apply, Bool.not_eq_true',
    Bool.eq_false_iff, ne_eq, meant]
  constructor
  · rintro ⟨asked, ⟨⟨same, covers⟩, later, earlier, split, passed⟩, made⟩
    refine ⟨earlier.reverse, asked, later.reverse, ?_, same, covers, made, ?_⟩
    · rw [← List.reverse_inj, split]
      simp
    · intro other member named covered
      exact passed other (List.mem_reverse.mp member) ⟨named, covered⟩
  · rintro ⟨earlier, asked, later, rfl, same, covers, made, passed⟩
    refine ⟨asked, ⟨⟨same, covers⟩, later.reverse, earlier.reverse, by simp, ?_⟩, made⟩
    rintro other member ⟨named, covered⟩
    exact passed other (List.mem_reverse.mp member) named covered

theorem find?_named_eq_none :
    ((ofHistory history).named name).find? (·.accepts count) = none ↔
      ∀ asked ∈ history, asked.name = name → ¬ asked.Covers count := by
  rw [List.find?_eq_none]
  constructor
  · intro none asked member same covers
    exact none asked.entry (mem_named_ofHistory.mpr ⟨asked, member, same, rfl⟩)
      ((asked.accepts_entry count).mpr covers)
  · intro none registration member accepted
    rcases mem_named_ofHistory.mp member with ⟨asked, among, same, rfl⟩
    exact none asked among same ((asked.accepts_entry count).mp accepted)

theorem total_reverse (widths : List Nat) : total widths.reverse = total widths := by
  rw [total, total, ← List.sum_eq_foldr, ← List.sum_eq_foldr, List.sum_reverse]

theorem total_width_named :
    total (((ofHistory history).named name).map Registration.width) = gathered history name := by
  have widths : Registration.width ∘ Registering.entry = Registering.width :=
    funext Registering.width_entry
  have names : (fun registration : Registration => registration.name == name) ∘ Registering.entry =
      fun asked => asked.name == name := by
    funext asked
    rw [Function.comp_apply, asked.name_entry]
  rw [named, registrations_ofHistory, List.filter_reverse, List.map_reverse, total_reverse,
    List.filter_map, List.map_map, names, widths, gathered]

/-- The counts are listed just if there is room for all that are gathered. -/
theorem listCounts?_named : listCounts? ((ofHistory history).named name) =
    if gathered history name ≤ countLimit then
      some ((((ofHistory history).named name).flatMap Registration.boundedCounts).foldr
        insertAscending [])
    else none := by
  rw [listCounts?, total_width_named]

/-- The counts that are reported are the available ones. -/
theorem isAvailable_reported : IsAvailable history name
    ((((ofHistory history).named name).flatMap Registration.boundedCounts).foldr
      insertAscending []) := by
  refine ⟨pairwise_foldr_insertAscending _, fun count => ?_⟩
  rw [mem_foldr_insertAscending, List.mem_flatMap]
  constructor
  · rintro ⟨registration, member, counted⟩
    rcases mem_named_ofHistory.mp member with ⟨asked, among, same, rfl⟩
    exact ⟨asked, among, same, (asked.mem_boundedCounts_entry count).mp counted⟩
  · rintro ⟨asked, among, same, both⟩
    exact ⟨asked.entry, mem_named_ofHistory.mpr ⟨asked, among, same, rfl⟩,
      (asked.mem_boundedCounts_entry count).mpr both⟩

/-- There is one ascending list of the available counts. -/
theorem IsAvailable.unique {counts others : List Nat} (available : IsAvailable history name counts)
    (alsoAvailable : IsAvailable history name others) : counts = others := by
  have once {numbers : List Nat} (ascending : numbers.Pairwise (· < ·)) : numbers.Nodup :=
    ascending.imp Nat.ne_of_lt
  have perm : counts.Perm others := by
    rw [List.perm_ext_iff_of_nodup (once available.1) (once alsoAvailable.1)]
    intro count
    rw [available.2, alsoAvailable.2]
  exact perm.eq_of_pairwise (fun _ _ _ _ less more => absurd less (Nat.lt_asymm more))
    available.1 alsoAvailable.1

/-- A count that no registration of the name covers is not available. -/
theorem not_mem_of_isAvailable {counts : List Nat} (available : IsAvailable history name counts)
    (missed : ∀ asked ∈ history, asked.name = name → ¬ asked.Covers count) : count ∉ counts := by
  intro member
  rcases (available.2 count).mp member with ⟨asked, among, same, _, covers⟩
  exact missed asked among same covers

theorem exists_named_iff :
    (ofHistory history).named name ≠ [] ↔ ∃ asked ∈ history, asked.name = name := by
  rw [ne_eq, named_ofHistory_eq_nil]
  simp

/-- What a call is resolved to after any history of registrations: the function of the latest
registration of the name that covers the number of arguments; an unknown name exactly if the name was
never registered; and otherwise the counts that a registration of the name with a limit covers,
ascending, and never the number of arguments itself.  These are only reported if there is room to gather
them; the call is broken off if there is none. -/
theorem resolve_ofHistory (history : List Registering) (name : String) (count : Nat) :
    (∀ function, (ofHistory history).resolve name count = .ok function ↔
      Offers history name count function) ∧
    (∀ reported, (ofHistory history).resolve name count = .error (.unknown reported) ↔
      reported = name ∧ ∀ asked ∈ history, asked.name ≠ name) ∧
    (∀ reported counts,
      (ofHistory history).resolve name count = .error (.wrongArity reported counts) ↔
        reported = name ∧ (∃ asked ∈ history, asked.name = name) ∧
        (∀ asked ∈ history, asked.name = name → ¬ asked.Covers count) ∧
        gathered history name ≤ countLimit ∧ IsAvailable history name counts ∧ count ∉ counts) ∧
    ((ofHistory history).resolve name count = .error .capacityOverflow ↔
      (∃ asked ∈ history, asked.name = name) ∧
      (∀ asked ∈ history, asked.name = name → ¬ asked.Covers count) ∧
      countLimit < gathered history name) := by
  refine ⟨fun function => ?_, fun reported => ?_, fun reported counts => ?_, ?_⟩
  · rw [resolve_eq_ok_iff]
    constructor
    · rintro ⟨registration, found, rfl⟩
      rcases (find?_named_ofHistory registration).mp found with
        ⟨earlier, asked, later, split, same, covers, rfl, passed⟩
      exact ⟨earlier, asked, later, split, same, covers, asked.function_entry.symm, passed⟩
    · rintro ⟨earlier, asked, later, split, same, covers, rfl, passed⟩
      exact ⟨asked.entry, (find?_named_ofHistory asked.entry).mpr
        ⟨earlier, asked, later, split, same, covers, rfl, passed⟩, asked.function_entry⟩
  · rw [resolve_eq_unknown_iff, named_ofHistory_eq_nil]
  · rw [resolve_eq_wrongArity_iff, exists_named_iff, find?_named_eq_none, listCounts?_named,
      Option.ite_none_right_eq_some, Option.some.injEq]
    constructor
    · rintro ⟨same, known, missed, room, rfl⟩
      exact ⟨same, known, missed, room, isAvailable_reported,
        not_mem_of_isAvailable isAvailable_reported missed⟩
    · rintro ⟨same, known, missed, room, available, _⟩
      exact ⟨same, known, missed, room, isAvailable_reported.unique available⟩
  · rw [resolve_eq_capacityOverflow_iff, exists_named_iff, find?_named_eq_none, listCounts?_named,
      ← Nat.not_le]
    simp

/-- There is no room for all numbers of arguments from one to the largest word, so that a call without
arguments of a function that is registered for these is broken off. -/
theorem resolve_overfull :
    let wide : Registering := .ranged "f" 1 (some (UInt64.size - 1)) fun _ _ _ => .ok (.boolean true)
    wide.name = "f" ∧ ¬ wide.Covers 0 ∧
      (ofHistory [wide]).resolve "f" 0 = .error .capacityOverflow :=
  ⟨rfl, fun covers => Nat.not_succ_le_zero 0 covers.1, rfl⟩

end Registry

end NodeQuery
