import LineScript.Proofs.Legibility
import LineScript.Proofs.Replay
import Mathlib.Data.List.Perm.Basic

/-!
# Scopes written down again

A scope that lines lead to holds nothing but what declarations put there, and a
declaration that was read off a line can be written on one.  So every such scope can be
written down, one line for each of its names.  The lines bind different names, and so
they give the scope back in whatever order they are interpreted.
-/

namespace LineScript

/-! ## Lines in turn -/

/-- Interpret lines one after the other, each on the scope the one before it left. -/
def interpretAll (scope : Scope) : List (Mode × String) → List Interpretation
  | [] => []
  | (mode, text) :: rest =>
      let interpretation := interpret mode text scope
      interpretation :: interpretAll interpretation.scope rest

def scopeAfterLines (scope : Scope) (lines : List (Mode × String)) : Scope :=
  ((interpretAll scope lines).map (·.scope)).getLastD scope

@[simp] theorem scopeAfterLines_nil (scope : Scope) : scopeAfterLines scope [] = scope := rfl

@[simp] theorem scopeAfterLines_cons (scope : Scope) (line : Mode × String)
    (rest : List (Mode × String)) :
    scopeAfterLines scope (line :: rest) =
      scopeAfterLines (interpret line.1 line.2 scope).scope rest := by
  rw [scopeAfterLines, interpretAll, List.map_cons, List.getLastD_cons]
  rfl

/-! ## Where bindings come from -/

/-- Every binding was put there by a declaration of some sort. -/
def Scope.MadeBy (sort : Declaration → Prop) (scope : Scope) : Prop :=
  ∀ name entry, scope.get? name = some entry →
    ∃ declaration, sort declaration ∧ declaration.name = name ∧ declaration.entry = entry

variable {sort : Declaration → Prop}

theorem Scope.madeBy_empty : empty.MadeBy sort := by
  intro name entry bound
  rw [get?_empty] at bound
  contradiction

theorem Scope.MadeBy.bind {scope : Scope} (made : scope.MadeBy sort) {declaration : Declaration}
    (sorted : sort declaration) :
    (scope.bind declaration.name declaration.entry).MadeBy sort := by
  intro name entry bound
  rw [get?_bind] at bound
  split at bound
  next same => exact ⟨declaration, sorted, same, Option.some.inj bound⟩
  next => exact made name entry bound

theorem Scope.MadeBy.execute {scope next : Scope} {statement : Statement} {event : Event}
    (made : scope.MadeBy sort)
    (sorted : ∀ declaration span, statement = .declare declaration span → sort declaration)
    (executed : statement.execute scope = .ok (next, event)) : next.MadeBy sort := by
  rcases Statement.execute_eq_ok_cases executed with
    ⟨declaration, span, same, -, rfl, -⟩ | ⟨_, _, -, rfl, -⟩
  · exact made.bind (sorted declaration span same)
  · exact made

theorem Scope.MadeBy.evaluate {scope : Scope} (made : scope.MadeBy sort) {program : Program}
    (sorted : ∀ declaration span, .declare declaration span ∈ program → sort declaration) :
    (program.evaluate scope).scope.MadeBy sort := by
  have keeps : program.Keeps (·.MadeBy sort) := by
    intro statement member before next event held executed
    apply held.execute _ executed
    rintro declaration span rfl
    exact sorted declaration span member
  exact keeps.evaluate made

theorem Scope.MadeBy.interpret {scope : Scope} (made : scope.MadeBy sort) {mode : Mode}
    (sorted : ∀ declaration span, (Statement.declare declaration span).Legible mode →
      sort declaration) (text : String) :
    (interpret mode text scope).scope.MadeBy sort := by
  cases read : Program.ofTokens (Token.ofLine mode text) with
  | error diagnostic =>
      rw [interpret_of_error read]
      exact made
  | ok program =>
      rw [interpret_of_ok read]
      exact made.evaluate fun declaration span member =>
        sorted declaration span (Program.legible_of_read read _ member)

theorem Scope.MadeBy.scopeAfterLines {scope : Scope} (made : scope.MadeBy sort)
    {lines : List (Mode × String)}
    (sorted : ∀ line ∈ lines, ∀ declaration span,
      (Statement.declare declaration span).Legible line.1 → sort declaration) :
    (scopeAfterLines scope lines).MadeBy sort := by
  induction lines generalizing scope with
  | nil => exact made
  | cons line rest ih =>
      obtain ⟨first, others⟩ := List.forall_mem_cons.mp sorted
      rw [scopeAfterLines_cons]
      exact ih (made.interpret first line.2) others

/-! ## Lines of one declaration -/

/-- Annotating, the line is read as one declaration, of some sort, that makes the binding. -/
def Declares (sort : Declaration → Prop) (line : String) (binding : String × Entry) : Prop :=
  ∃ declaration span,
    Program.ofTokens (Token.ofLine .annotating line) = .ok [.declare declaration span] ∧
      sort declaration ∧ declaration.name = binding.1 ∧ declaration.entry = binding.2

theorem Declares.interpret {line : String} {binding : String × Entry} {scope : Scope}
    (declares : Declares sort line binding) (free : scope.get? binding.1 = none) :
    ∃ events, (interpret .annotating line scope).outcome = .completed events ∧
      (interpret .annotating line scope).scope = scope.bind binding.1 binding.2 := by
  obtain ⟨declaration, span, read, -, named, made⟩ := declares
  have unlocked : scope.isLocked declaration.name = false := by
    simp [Scope.isLocked, named, free]
  have executed := Statement.execute_declare_of_free unlocked span
  rw [named, made] at executed
  rw [interpret_of_ok read, Program.evaluate_of_ok executed]
  exact ⟨_, rfl, rfl⟩

theorem exists_line_of_writable {declaration : Declaration} {span : Span}
    (writable : (Statement.declare declaration span).Writable) :
    ∃ line read place,
      Program.ofTokens (Token.ofLine .annotating line) = .ok [.declare read place] ∧
        read.relocate .erase = declaration.relocate .erase := by
  have each : ∀ statement ∈ [Statement.declare declaration span], statement.Writable := by
    simpa using writable
  obtain ⟨line, written⟩ := Program.exists_written each
  obtain ⟨program, read, same⟩ := Program.ofTokens_of_written each written
  obtain ⟨statement, rfl, moved⟩ := List.map_eq_singleton_iff.mp same
  cases statement with
  | declare again place => exact ⟨line, again, place, read, (Statement.declare.inj moved).1⟩
  | print argument place => contradiction

/-! ## Different names -/

namespace Scope

theorem mem_toList_iff {scope : Scope} {name : String} {entry : Entry} :
    (name, entry) ∈ scope.toList ↔ scope.get? name = some entry :=
  Std.ExtTreeMap.mem_toList_iff_getElem?_eq_some

theorem mem_names_iff {scope : Scope} {name : String} :
    name ∈ scope.toList.map (·.1) ↔ (scope.get? name).isSome := by
  rw [List.mem_map, Option.isSome_iff_exists]
  constructor
  · rintro ⟨⟨_, entry⟩, member, rfl⟩
    exact ⟨entry, mem_toList_iff.mp member⟩
  · rintro ⟨entry, bound⟩
    exact ⟨_, mem_toList_iff.mpr bound, rfl⟩

theorem nodup_names (scope : Scope) : (scope.toList.map (·.1)).Nodup := by
  rw [List.Nodup, List.pairwise_map]
  refine Std.ExtTreeMap.distinct_keys_toList.imp ?_
  intro first second different same
  exact different (Std.LawfulEqCmp.compare_eq_iff_eq.mpr same)

theorem get?_bindAll_of_mem {bindings : List (String × Entry)}
    (distinct : (bindings.map (·.1)).Nodup) {name : String} {entry : Entry}
    (member : (name, entry) ∈ bindings) (scope : Scope) :
    (scope.bindAll bindings).get? name = some entry := by
  induction bindings using List.reverseRecOn with
  | nil => contradiction
  | append_singleton bindings binding ih =>
      obtain ⟨other, last⟩ := binding
      rw [List.map_append, List.nodup_append] at distinct
      obtain ⟨earlier, -, apart⟩ := distinct
      rw [bindAll_concat, get?_bind]
      rcases List.mem_append.mp member with before | here
      · have different : other ≠ name :=
          Ne.symm (apart name (List.mem_map_of_mem before) other (by simp))
        rw [if_neg different, ih earlier before]
      · obtain ⟨rfl, rfl⟩ : name = other ∧ entry = last := by simpa using here
        rw [if_pos rfl]

theorem bindAll_empty_of_perm {bindings : List (String × Entry)} {scope : Scope}
    (permuted : bindings.Perm scope.toList) : empty.bindAll bindings = scope := by
  have distinct : (bindings.map (·.1)).Nodup := (permuted.map _).nodup_iff.mpr scope.nodup_names
  apply Scope.ext
  intro name
  cases bound : scope.get? name with
  | some entry =>
      have member := permuted.mem_iff.mpr (mem_toList_iff.mpr bound)
      rw [get?_bindAll_of_mem distinct member]
  | none =>
      rw [← Option.not_isSome_iff_eq_none, isSome_get?_bindAll, (permuted.map _).mem_iff,
        mem_names_iff]
      simp [bound]

end Scope

/-! ## Lines that give a scope back -/

/-- Annotating, from the empty scope, every line completes and the scope is left. -/
structure Rebuilds (lines : List String) (scope : Scope) : Prop where
  completed : ∀ interpretation ∈ interpretAll .empty (lines.map (Prod.mk .annotating)),
    ∃ events, interpretation.outcome = .completed events
  scope_eq : scopeAfterLines .empty (lines.map (Prod.mk .annotating)) = scope

theorem interpretAll_of_declares {lines : List String} {bindings : List (String × Entry)}
    (declares : List.Forall₂ (Declares sort) lines bindings)
    (distinct : (bindings.map (·.1)).Nodup) {scope : Scope}
    (fresh : ∀ binding ∈ bindings, scope.get? binding.1 = none) :
    (∀ interpretation ∈ interpretAll scope (lines.map (Prod.mk .annotating)),
      ∃ events, interpretation.outcome = .completed events) ∧
    scopeAfterLines scope (lines.map (Prod.mk .annotating)) = scope.bindAll bindings := by
  induction declares generalizing scope with
  | nil => exact ⟨by simp [interpretAll], rfl⟩
  | @cons line binding lines bindings declares _ ih =>
      obtain ⟨different, distinctRest⟩ := List.nodup_cons.mp distinct
      obtain ⟨free, freshRest⟩ := List.forall_mem_cons.mp fresh
      obtain ⟨events, completed, bound⟩ := declares.interpret free
      have later : ∀ other ∈ bindings, (scope.bind binding.1 binding.2).get? other.1 = none := by
        intro other member
        have apart : binding.1 ≠ other.1 := by
          intro same
          exact different (List.mem_map.mpr ⟨other, member, same.symm⟩)
        rw [Scope.get?_bind, if_neg apart, freshRest other member]
      obtain ⟨each, left⟩ := ih distinctRest later
      rw [List.map_cons, interpretAll, scopeAfterLines_cons]
      rw [← bound] at each left
      refine ⟨List.forall_mem_cons.mpr ⟨⟨events, completed⟩, each⟩, ?_⟩
      rw [left, bound]
      rfl

theorem rebuilds_of_perm {lines order : List String} {scope : Scope}
    (declares : List.Forall₂ (Declares sort) lines scope.toList) (permuted : order.Perm lines) :
    Rebuilds order scope := by
  -- The order of the lines is an order of the bindings they make.
  obtain ⟨bindings, declaresOrder, same⟩ := List.perm_comp_forall₂ permuted declares
  have distinct : (bindings.map (·.1)).Nodup := (same.map _).nodup_iff.mpr scope.nodup_names
  obtain ⟨completed, left⟩ := interpretAll_of_declares declaresOrder distinct
    (fun binding _ => Scope.get?_empty binding.1)
  exact ⟨completed, left.trans (Scope.bindAll_empty_of_perm same)⟩

theorem Scope.MadeBy.exists_declares {scope : Scope} {untagged : Prop}
    (made : scope.MadeBy fun declaration =>
      (∃ span, (Statement.declare declaration span).Writable) ∧
        (untagged → declaration.declaredType = none)) :
    ∃ lines, List.Forall₂ (Declares fun declaration => untagged → declaration.declaredType = none)
      lines scope.toList := by
  have each : ∀ binding ∈ scope.toList, ∃ line,
      Declares (fun declaration => untagged → declaration.declaredType = none) line binding := by
    rintro ⟨name, entry⟩ member
    obtain ⟨declaration, ⟨⟨span, writable⟩, plain⟩, rfl, rfl⟩ :=
      made name entry (mem_toList_iff.mp member)
    obtain ⟨line, again, place, read, same⟩ := exists_line_of_writable writable
    obtain ⟨-, named, tagged, -⟩ := Declaration.mk.inj same
    refine ⟨line, again, place, read, fun holds => tagged.trans (plain holds), named, ?_⟩
    rw [← again.entry_relocate .erase, same, declaration.entry_relocate]
  choose! lineOf declares using each
  refine ⟨scope.toList.map lineOf, ?_⟩
  rw [List.forall₂_map_left_iff, List.forall₂_same]
  exact declares

theorem Declaration.type_entry_of_untagged {declaration : Declaration}
    (untagged : declaration.declaredType = none) :
    declaration.entry.type = declaration.entry.value.type := by
  obtain ⟨mutability, name, declared, initializer⟩ := declaration
  obtain rfl : declared = none := untagged
  cases initializer <;> rfl

/-- A scope that any lines lead to from the empty one is given back by as many lines as it
has names, each a single declaration of one of them, in every order.  If the lines were all
terminated, these declarations need no type tag. -/
theorem reachable_scope_expressible (history : List (Mode × String)) :
    let scope := scopeAfterLines .empty history
    let terminated := ∀ line ∈ history, line.1 = .terminating
    (∃ lines names : List String, lines.length = scope.size ∧ names.Nodup ∧
      (∀ name, name ∈ names ↔ (scope.get? name).isSome) ∧
      List.Forall₂ (fun line name => ∃ declaration span,
        Program.ofTokens (Token.ofLine .annotating line) = .ok [.declare declaration span] ∧
          declaration.name = name ∧ (terminated → declaration.declaredType = none)) lines names ∧
      ∀ order : List String, order.Perm lines → Rebuilds order scope) ∧
    (terminated → ∀ name entry, scope.get? name = some entry → entry.type = entry.value.type) := by
  intro scope terminated
  have made : scope.MadeBy fun declaration =>
      (∃ span, (Statement.declare declaration span).Writable) ∧
        (terminated → declaration.declaredType = none) := by
    apply Scope.madeBy_empty.scopeAfterLines
    rintro line member declaration span ⟨writable, untagged⟩
    exact ⟨⟨span, writable⟩, fun holds => untagged (holds line member)⟩
  constructor
  · obtain ⟨lines, declares⟩ := made.exists_declares
    refine ⟨lines, scope.toList.map (·.1), ?_, scope.nodup_names,
      fun _ => Scope.mem_names_iff, ?_, ?_⟩
    · rw [declares.length_eq]
      exact Std.ExtTreeMap.length_toList
    · rw [List.forall₂_map_right_iff]
      refine declares.imp ?_
      rintro line binding ⟨declaration, span, read, untagged, named, -⟩
      exact ⟨declaration, span, read, named, untagged⟩
    · exact fun order permuted => rebuilds_of_perm declares permuted
  · intro holds name entry bound
    obtain ⟨declaration, ⟨-, untagged⟩, -, rfl⟩ := made name entry bound
    exact Declaration.type_entry_of_untagged (untagged holds)

theorem reachable_scope_expressible_after_locked_name :
    let history : List (Mode × String) :=
      [(.terminating, "set x = -0.5"), (.terminating, "let s = 'a\"b' let x = 1 let t = 2")]
    let scope := scopeAfterLines .empty history
    (∀ line ∈ history, line.1 = .terminating) ∧ scope.size = 2 ∧
    (∃ lines : List String, lines.length = 2 ∧
      ∀ order : List String, order.Perm lines → Rebuilds order scope) ∧
    ∀ name entry, scope.get? name = some entry → entry.type = entry.value.type := by
  intro history scope
  have terminated : ∀ line ∈ history, line.1 = .terminating := by decide
  have first : Program.ofTokens (Token.ofLine .terminating "set x = -0.5") =
      .ok [.declare ⟨.immutable, "x", none, some ⟨.float ⟨0xBFE0000000000000⟩, ⟨8, 12⟩⟩⟩
        ⟨0, 12⟩] := by
    decide +kernel
  have second : Program.ofTokens
      (Token.ofLine .terminating "let s = 'a\"b' let x = 1 let t = 2") =
      .ok [.declare ⟨.mutable, "s", none, some ⟨.str "a\"b", ⟨8, 13⟩⟩⟩ ⟨0, 13⟩,
        .declare ⟨.mutable, "x", none, some ⟨.int 1, ⟨22, 23⟩⟩⟩ ⟨14, 23⟩,
        .declare ⟨.mutable, "t", none, some ⟨.int 2, ⟨32, 33⟩⟩⟩ ⟨24, 33⟩] := by
    decide +kernel
  have size : scope.size = 2 := by
    have empty : Scope.empty.size = 0 := rfl
    simp [scope, history, interpret_of_ok first, interpret_of_ok second, Program.evaluate,
      Statement.execute, Scope.declare, Scope.isLocked, Scope.get?_bind, Scope.size_bind,
      Declaration.entry, empty]
  obtain ⟨⟨lines, names, length, -, -, -, rebuilt⟩, typed⟩ := reachable_scope_expressible history
  exact ⟨terminated, size, ⟨lines, length.trans size, rebuilt⟩, typed terminated⟩

end LineScript
