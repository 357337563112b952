import ExpLang.Proofs.Lowering.Changes
import Mathlib.Data.List.Nodup
import Mathlib.Data.Nat.Find

/-!
# Names in generated code

A base asks a name supply for a name. The supply tries the base, and then the base with the numbers from
one on, and gives the first of these candidates that it has not given before. It has to try no more
numbers than there are names that it has given, since candidates with different numbers are different
names. So no name is given twice, whatever bases are asked for, also bases that end in digits.

A method keeps a supply from which its parameters take their names first and its locals take theirs
after them. Whatever is done to a unit, the names that locals have in generated code are different from
each other and from the parameters of the method.
-/

namespace ExpLang.Resolved

namespace NameSupply

/-- The names that are tried for a base, in this order. -/
def candidate (base : String) : Nat → String
  | 0 => base
  | n + 1 => base ++ toString (n + 1)

/-- A base with a number is not the base, and the number can be read off it. -/
theorem candidate_injective (base : String) : Function.Injective (candidate base) := by
  have hnumber (n : Nat) : base ++ toString n ≠ base := fun h =>
    Nat.repr_ne_empty (String.append_eq_left_iff.1 h)
  intro m n h
  cases m with
  | zero =>
    cases n with
    | zero => rfl
    | succ n => exact absurd h.symm (hnumber _)
  | succ m =>
    cases n with
    | zero => exact absurd h (hnumber _)
    | succ n =>
      have hdigits := congrArg String.toList ((String.append_right_inj base).1 h)
      have hread := congrArg (Nat.ofDigitChars 10 · 0) hdigits
      simpa using hread

/-- The name of a base when others are used: its first candidate that is not among them. No more numbers
are tried than names are used. -/
def Gives (used : List String) (base name : String) : Prop :=
  ∃ n ≤ used.length, name = candidate base n ∧ name ∉ used ∧ ∀ m < n, candidate base m ∈ used

variable {used : List String} {base name : String} {names : NameSupply}

/-- Not all candidates up to the number of used names are used. -/
theorem exists_candidate_notMem (used : List String) (base : String) :
    ∃ n ≤ used.length, candidate base n ∉ used := by
  by_contra hnone
  have hnodup : ((List.range (used.length + 1)).map (candidate base)).Nodup :=
    List.nodup_range.map (candidate_injective base)
  have hsubset : (List.range (used.length + 1)).map (candidate base) ⊆ used := by
    intro name hname
    obtain ⟨n, hn, rfl⟩ := List.mem_map.1 hname
    by_contra hfree
    exact hnone ⟨n, Nat.le_of_lt_succ (List.mem_range.1 hn), hfree⟩
  have hle := hnodup.length_le_of_subset hsubset
  rw [List.length_map, List.length_range] at hle
  exact Nat.not_succ_le_self _ hle

/-- The search finds the first candidate that is not used, if that is within its bound. -/
theorem firstFree_eq_candidate {bound n k : Nat} (hn : 0 < n) (hnk : n ≤ k) (hk : k ≤ n + bound)
    (hfree : candidate base k ∉ used) (hleast : ∀ m < k, candidate base m ∈ used) :
    firstFree used base bound n = candidate base k := by
  have hcandidate {n : Nat} (hn : 0 < n) : base ++ toString n = candidate base n := by
    cases n with
    | zero => exact absurd hn (Nat.lt_irrefl 0)
    | succ n => rfl
  fun_induction firstFree used base bound n with
  | case1 n => rw [hcandidate hn, Nat.le_antisymm hnk hk]
  | case2 bound n name hused ih =>
    have hne : n ≠ k := by
      rintro rfl
      rw [← hcandidate hn] at hfree
      exact hfree (List.contains_iff_mem.1 hused)
    exact ih (Nat.succ_pos n) (by omega) (by omega)
  | case3 bound n name hunused =>
    rcases Nat.lt_or_eq_of_le hnk with hlt | rfl
    · have hused := hleast n hlt
      rw [← hcandidate hn] at hused
      exact absurd (List.contains_iff_mem.2 hused) hunused
    · exact hcandidate hn

/-- A supply gives the first candidate that is not among the names it has given. -/
theorem take_gives (names : NameSupply) (base : String) :
    Gives names.used base (names.take base).1 := by
  have hexists := exists_candidate_notMem names.used base
  have hfree : ∃ n, candidate base n ∉ names.used := hexists.imp fun _ h => h.2
  have hleast : ∀ m < Nat.find hfree, candidate base m ∈ names.used := fun m hm =>
    Decidable.not_not.1 (Nat.find_min hfree hm)
  have hle : Nat.find hfree ≤ names.used.length := by
    obtain ⟨n, hn, hnfree⟩ := hexists
    exact Nat.le_trans (Nat.find_min' hfree hnfree) hn
  have htake : (names.take base).1 = candidate base (Nat.find hfree) := by
    rw [take]
    split
    · rename_i hused
      have hpos : 0 < Nat.find hfree := (Nat.find_pos hfree).2 fun h => h (List.contains_iff_mem.1 hused)
      exact firstFree_eq_candidate (Nat.succ_pos 0) hpos (by omega) (Nat.find_spec hfree) hleast
    · rename_i hunused
      have hzero : Nat.find hfree = 0 :=
        (Nat.find_eq_zero hfree).2 fun h => hunused (List.contains_iff_mem.2 h)
      rw [hzero, candidate]
  exact ⟨Nat.find hfree, hle, htake, htake ▸ Nat.find_spec hfree, hleast⟩

/-- A name that is taken is used from then on. -/
@[simp] theorem used_take (names : NameSupply) (base : String) :
    (names.take base).2.used = (names.take base).1 :: names.used := rfl

/-- A name that is given was not used. -/
theorem Gives.notMem (h : Gives used base name) : name ∉ used := h.choose_spec.2.2.1

/-- A base that was asked for is used afterwards, be it for this request or since an earlier one. -/
theorem base_mem_used_take (names : NameSupply) (base : String) : base ∈ (names.take base).2.used := by
  obtain ⟨n, -, hname, -, hleast⟩ := take_gives names base
  rw [used_take]
  cases n with
  | zero => exact List.mem_cons.2 (.inl hname.symm)
  | succ n => exact List.mem_cons_of_mem _ (hleast 0 (Nat.succ_pos n))

/-! ## One request after the other -/

/-- The names for some bases, asked for one after the other, and the supply after that. -/
def takeAll (names : NameSupply) : List String → List String × NameSupply
  | [] => ([], names)
  | base :: bases =>
    let (name, names) := names.take base
    let (rest, names) := names.takeAll bases
    (name :: rest, names)

/-- Taking names for a longer list takes the last name last. -/
theorem takeAll_append (names : NameSupply) (bases : List String) (base : String) :
    names.takeAll (bases ++ [base]) =
      ((names.takeAll bases).1 ++ [((names.takeAll bases).2.take base).1],
        ((names.takeAll bases).2.take base).2) := by
  induction bases generalizing names with
  | nil => rfl
  | cons first bases ih =>
    simp only [List.cons_append, takeAll, ih]

/-- The names that are used are the ones taken, the last one first, and those used before. -/
theorem used_takeAll (names : NameSupply) (bases : List String) :
    (names.takeAll bases).2.used = (names.takeAll bases).1.reverse ++ names.used := by
  induction bases generalizing names with
  | nil => rfl
  | cons base bases ih =>
    rw [takeAll]
    simp [ih]

/-- There are as many names as bases. -/
theorem length_takeAll (names : NameSupply) (bases : List String) :
    (names.takeAll bases).1.length = bases.length := by
  induction bases generalizing names with
  | nil => rfl
  | cons base bases ih => exact congrArg Nat.succ (ih _)

/-- No name is given twice. -/
theorem nodup_used_takeAll (h : names.used.Nodup) (bases : List String) :
    (names.takeAll bases).2.used.Nodup := by
  induction bases generalizing names with
  | nil => exact h
  | cons base bases ih =>
    exact ih (List.nodup_cons.2 ⟨(take_gives names base).notMem, h⟩)

/-- Every base that was asked for is used. -/
theorem mem_used_takeAll {bases : List String} (h : base ∈ bases ∨ base ∈ names.used) :
    base ∈ (names.takeAll bases).2.used := by
  induction bases generalizing names with
  | nil => exact h.resolve_left List.not_mem_nil
  | cons first bases ih =>
    refine ih (h.elim (fun hmem => ?_) fun hused => .inr (List.mem_cons_of_mem _ hused))
    rcases List.mem_cons.1 hmem with rfl | hmem
    · exact .inr (base_mem_used_take names base)
    · exact .inl hmem

/-- Parameters take their names one after the other. -/
theorem foldl_take (params : List (String × TypeId)) (names : NameSupply) :
    params.foldl (fun names p => (names.take p.1).2) names =
      (names.takeAll (params.map (·.1))).2 := by
  induction params generalizing names with
  | nil => rfl
  | cons p params ih => exact ih _

end NameSupply

/-! ## Methods -/

/-- The names that a method has given are all in its supply. -/
structure MethodDef.WellNamed (m : MethodDef) : Prop where
  param_used : ∀ p ∈ m.params, p.name ∈ m.names.used
  local_used : ∀ l ∈ m.locals, l.codegenName ∈ m.names.used
  locals_apart : (m.locals.toList.map (·.codegenName)).Nodup
  apart_of_param : ∀ l ∈ m.locals, ∀ p ∈ m.params, l.codegenName ≠ p.name

namespace MethodDef

/-- A method whose parameters have taken their names and that has no locals. -/
theorem wellNamed_of_params {m : MethodDef} {params : List (String × TypeId)}
    (hparams : m.params.toList.map (·.name) = params.map (·.1)) (hlocals : m.locals = #[])
    (hnames : m.names = params.foldl (fun names p => (names.take p.1).2) {}) : m.WellNamed where
  param_used p hp := by
    rw [hnames, NameSupply.foldl_take, ← hparams]
    exact NameSupply.mem_used_takeAll (.inl (List.mem_map_of_mem (Array.mem_toList_iff.2 hp)))
  local_used l hl := by
    rw [hlocals] at hl
    exact absurd hl (Array.not_mem_empty l)
  locals_apart := by
    rw [hlocals]
    exact List.nodup_nil
  apart_of_param l hl := by
    rw [hlocals] at hl
    exact absurd hl (Array.not_mem_empty l)

/-- A local takes a name that neither a parameter nor another local has. -/
theorem WellNamed.addLocal {m : MethodDef} (h : m.WellNamed) (name : String) (type : TypeId)
    (span : Span) : (m.addLocal name type span).2.WellNamed := by
  have hnew : (m.names.take name).1 ∉ m.names.used := (m.names.take_gives name).notMem
  refine ⟨fun p hp => List.mem_cons_of_mem _ (h.param_used p hp), fun l hl => ?_, ?_,
    fun l hl p hp => ?_⟩
  · rcases Array.mem_push.1 hl with hold | rfl
    · exact List.mem_cons_of_mem _ (h.local_used l hold)
    · exact List.mem_cons_self
  · change ((m.locals.push _).toList.map _).Nodup
    rw [Array.toList_push, List.map_append, List.nodup_append]
    refine ⟨h.locals_apart, List.nodup_singleton _, ?_⟩
    intro a hold b hb
    obtain ⟨l, hl, rfl⟩ := List.mem_map.1 hold
    rw [List.map_singleton, List.mem_singleton] at hb
    rw [hb]
    exact ne_of_mem_of_not_mem (h.local_used l (Array.mem_toList_iff.1 hl)) hnew
  · rcases Array.mem_push.1 hl with hold | rfl
    · exact h.apart_of_param l hold p hp
    · exact (ne_of_mem_of_not_mem (h.param_used p hp) hnew).symm

/-- A parameter that gets a default keeps its name. -/
theorem WellNamed.setDefault {m : MethodDef} (h : m.WellNamed) (param : ParamId) (value : Expr) :
    { m with params := m.params.modify param fun p => { p with default := some value } }.WellNamed := by
  have hname : ∀ p ∈ m.params.modify param fun p => { p with default := some value },
      ∃ q ∈ m.params, p.name = q.name := by
    intro p hp
    obtain ⟨k, hk⟩ := Array.getElem?_of_mem hp
    rw [Array.getElem?_modify] at hk
    split at hk
    · obtain ⟨q, hq, rfl⟩ := Option.map_eq_some_iff.1 hk
      exact ⟨q, Array.mem_of_getElem? hq, rfl⟩
    · exact ⟨p, Array.mem_of_getElem? hk, rfl⟩
  refine ⟨fun p hp => ?_, h.local_used, h.locals_apart, fun l hl p hp => ?_⟩
  · obtain ⟨q, hq, heq⟩ := hname p hp
    rw [heq]
    exact h.param_used q hq
  · obtain ⟨q, hq, heq⟩ := hname p hp
    rw [heq]
    exact h.apart_of_param l hl q hq

end MethodDef

/-! ## Units -/

namespace CodeUnit

variable {u u' : CodeUnit}

/-- A change of one method that keeps its names in order. -/
theorem wellNamed_modifyMethod {id : MethodId} {f : MethodDef → MethodDef}
    (hf : (u.getMethod id).WellNamed → (f (u.getMethod id)).WellNamed)
    (h : ∀ i, (u.getMethod i).WellNamed) (i : MethodId) :
    ((u.modifyMethod id f).getMethod i).WellNamed := by
  rw [getMethod_modifyMethod]
  split
  · rename_i hid
    rw [← hid.1]
    exact hf (h id)
  · exact h i

/-- Each change of a unit keeps the names of its methods in order. -/
theorem Change.wellNamed (hchange : u.Change u') (h : ∀ i, (u.getMethod i).WellNamed)
    (i : MethodId) : (u'.getMethod i).WellNamed := by
  cases hchange with
  | types pool | firstValue id value => exact h i
  | newClass hcreate =>
    obtain ⟨-, c, -, -, rfl⟩ := createClass_eq_ok hcreate
    exact h i
  | newField hcreate =>
    obtain ⟨-, f, -, -, rfl⟩ := createField_eq_ok hcreate
    exact h i
  | @newMethod owner name ret modifiers params span id u' hcreate =>
    obtain ⟨-, m, hm, rfl⟩ := createMethod_eq_ok hcreate
    change ((u.methods.push m).getD i default).WellNamed
    rw [getD_push]
    split
    · subst hm
      exact MethodDef.wellNamed_of_params (by simp [declaredMethod]) rfl rfl
    · exact h i
  | paramDefault id param value =>
    exact wellNamed_modifyMethod (fun hm => hm.setDefault param value) h i
  | body id body => exact wellNamed_modifyMethod (fun hm => { hm with }) h i
  | newLocal id name type span =>
    exact wellNamed_modifyMethod (fun hm => hm.addLocal name type span) h i

/-- Changes of a unit keep its methods well named. -/
theorem Changes.wellNamed (hchanges : u.Changes u') (h : ∀ i, (u.getMethod i).WellNamed)
    (i : MethodId) : (u'.getMethod i).WellNamed := by
  induction hchanges generalizing i with
  | refl => exact h i
  | tail _ hchange ih => exact hchange.wellNamed ih i

/-- An index beyond the methods stands for a method without parameters and locals. -/
theorem wellNamed_empty (i : MethodId) : (empty.getMethod i).WellNamed :=
  @MethodDef.wellNamed_of_params _ [] rfl rfl rfl

/-- Names in generated code do not collide. Whatever bases are asked for, the names given are different
from each other, and each is the first candidate of its base that was not given before: the base, or the
base with the least number that makes a new name. The number is at most that of the names given before, so
a counter of 32 bits holds it as long as they are fewer than 2 ^ 32. Whatever is done to a unit, the names
of the locals of a method are different from each other and from its parameters. -/
theorem generated_names_apart :
    (∀ (bases : List String) (base : String),
      let given := (({} : NameSupply).takeAll bases).1
      given.Nodup ∧ given.length = bases.length ∧
        ∃ n ≤ given.length, (given.length < UInt32.size → n < UInt32.size) ∧
          (({} : NameSupply).takeAll (bases ++ [base])).1 = given ++ [NameSupply.candidate base n] ∧
            NameSupply.candidate base n ∉ given ∧ ∀ m < n, NameSupply.candidate base m ∈ given) ∧
    ∀ u : CodeUnit, empty.Changes u → ∀ i : MethodId,
      ((u.getMethod i).locals.toList.map (·.codegenName)).Nodup ∧
        ∀ l ∈ (u.getMethod i).locals, ∀ p ∈ (u.getMethod i).params, l.codegenName ≠ p.name := by
  refine ⟨fun bases base => ?_, fun u hchanges i => ?_⟩
  · have hused := NameSupply.used_takeAll {} bases
    rw [List.append_nil] at hused
    have hnodup := @NameSupply.nodup_used_takeAll {} List.nodup_nil bases
    rw [hused, List.nodup_reverse] at hnodup
    have hgives := NameSupply.take_gives (({} : NameSupply).takeAll bases).2 base
    simp only [NameSupply.Gives, hused, List.length_reverse, List.mem_reverse] at hgives
    obtain ⟨n, hn, hname, hfree, hleast⟩ := hgives
    refine ⟨hnodup, NameSupply.length_takeAll _ _, n, hn, Nat.lt_of_le_of_lt hn, ?_, hname ▸ hfree, hleast⟩
    rw [NameSupply.takeAll_append, hname]
  · have hnamed := hchanges.wellNamed wellNamed_empty i
    exact ⟨hnamed.locals_apart, hnamed.apart_of_param⟩

/-- A class with a method whose parameters and locals ask for names that end in digits. -/
def overlapping : Except DuplicateName CodeUnit := do
  let (owner, u) ← empty.createClass "A" ⟨0, 0⟩
  let (id, u) ← u.createMethod owner "f" Primitive.void.id .ofClass
    [("a", Primitive.int.id), ("a1", Primitive.int.id)] ⟨0, 0⟩
  return ["a", "a", "a11", "a1"].foldl (fun u name =>
    u.modifyMethod id fun _ => ((u.getMethod id).addLocal name Primitive.int.id ⟨0, 0⟩).2) u

/-- The unit of overlapping names comes of changes of the empty one. -/
theorem changes_overlapping {u : CodeUnit} (h : overlapping = .ok u) : empty.Changes u := by
  unfold overlapping at h
  cases hclass : empty.createClass "A" ⟨0, 0⟩ with
  | error clash =>
    rw [hclass] at h
    cases h
  | ok created =>
    cases hmethod : created.2.createMethod created.1 "f" Primitive.void.id .ofClass
        [("a", Primitive.int.id), ("a1", Primitive.int.id)] ⟨0, 0⟩ with
    | error clash =>
      simp only [Bind.bind, Except.bind, hclass, hmethod] at h
      cases h
    | ok made =>
      simp only [Bind.bind, Except.bind, hclass, hmethod] at h
      cases h
      exact (((((Relation.ReflTransGen.single (.newClass hclass)).tail (.newMethod hmethod)).tail
        (.newLocal _ "a" _ _)).tail (.newLocal _ "a" _ _)).tail (.newLocal _ "a11" _ _)).tail
        (.newLocal _ "a1" _ _)

/-- Names of locals that end in digits, beside parameters with names of the same form. -/
theorem generated_names_apart_overlapping :
    ∃ u, empty.Changes u ∧
      (u.getMethod 0).locals.toList.map (·.codegenName) = ["a2", "a3", "a11", "a12"] ∧
      ((u.getMethod 0).locals.toList.map (·.codegenName)).Nodup ∧
        ∀ l ∈ (u.getMethod 0).locals, ∀ p ∈ (u.getMethod 0).params, l.codegenName ≠ p.name := by
  have hnames : overlapping.toOption.map (fun u =>
      (u.getMethod 0).locals.toList.map (·.codegenName)) = some ["a2", "a3", "a11", "a12"] := by
    decide +kernel
  cases hu : overlapping with
  | error clash =>
    rw [hu] at hnames
    cases hnames
  | ok u =>
    rw [hu] at hnames
    have hchanges := changes_overlapping hu
    exact ⟨u, hchanges, Option.some.inj hnames, generated_names_apart.2 u hchanges 0⟩

end CodeUnit

end ExpLang.Resolved

namespace ExpLang.Lowering

open Resolved

/-- The names of the locals in a program that was lowered. -/
theorem lowerProgram_wellNamed {p : Syntax.Program} {policy : QueuePolicy} {u : CodeUnit}
    {queue : DiagnosticQueue} (h : lowerProgram p policy = .ok (u, queue)) (i : MethodId) :
    (u.getMethod i).WellNamed :=
  (lowerProgram_changes h).wellNamed CodeUnit.wellNamed_empty i

end ExpLang.Lowering
