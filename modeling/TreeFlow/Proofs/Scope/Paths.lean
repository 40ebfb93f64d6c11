import Mathlib.Data.List.Infix
import TreeFlow.Scope.Path

/-!
# Paths as lists of names

A path is kept as one text. Names are appended to it and cut off from its end, and to look a name up it is
taken apart at the dots and put together again. When namespaces are left in the reverse order of how they were
entered, every path comes back (`NamespacePath.Opens.walk_eq`), whatever the names are.

If the names are identifiers, which have no dots in them, then the text is as good as the list of them
(`NamespacePath.segments_ofNames`). The forms that a name may stand for are those in the namespaces around, the
nearest first (`NamespacePath.candidates_ofNames`), and a full name tells in which namespaces it was declared
(`NamespacePath.dotted_eq_dotted_iff`).
-/

namespace TreeFlow.NamespacePath

/-! ### Walking -/

/-- A namespace is entered or left. -/
inductive Step where
  | push (name : String)
  | pop (name : String)
  deriving DecidableEq, Repr

/-- The path behind a step. -/
def Step.perform : Step → NamespacePath → NamespacePath
  | push name, p => p.push name
  | pop name, p => p.pop name

/-- The path behind some steps. -/
def walk (p : NamespacePath) (steps : List Step) : NamespacePath :=
  steps.foldl (fun p step => step.perform p) p

/-- Every namespace that is left is the last one that was entered and not left yet. Those that are still open in
the end are listed from the outside in. -/
inductive Opens : List Step → List String → Prop
  | nil : Opens [] []
  | push {steps : List Step} {names : List String} (h : Opens steps names) (name : String) :
      Opens (steps ++ [.push name]) (names ++ [name])
  | pop {steps : List Step} {names : List String} {name : String} (h : Opens steps (names ++ [name])) :
      Opens (steps ++ [.pop name]) names

/-- The path inside of further namespaces, the outermost first. -/
def enter (p : NamespacePath) (names : List String) : NamespacePath := names.foldl push p

/-- The path inside of nested namespaces, the outermost first. -/
def ofNames (names : List String) : NamespacePath := enter {} names

/-- A name in nested namespaces, with dots in between. -/
def dotted (names : List String) (x : String) : String := ".".intercalate (names ++ [x])

variable {p : NamespacePath} {steps : List Step} {names around inner : List String} {x y z : String}

theorem walk_append (p : NamespacePath) (steps more : List Step) :
    p.walk (steps ++ more) = (p.walk steps).walk more := List.foldl_append

theorem enter_concat (p : NamespacePath) (names : List String) (name : String) :
    p.enter (names ++ [name]) = (p.enter names).push name := List.foldl_append

theorem toList_push (p : NamespacePath) (name : String) :
    (p.push name).text.toList = p.text.toList ++ (name.toList ++ ['.']) := by simp [push]

/-- **Leaving a namespace brings back the path from before,** whatever its name is. -/
theorem pop_push (p : NamespacePath) (name : String) : (p.push name).pop name = p := by
  have hsuffix : (name.toList ++ ['.']).isSuffixOf (p.push name).text.toList := by
    rw [toList_push, List.isSuffixOf_iff_suffix]
    exact List.suffix_append ..
  have htake : (p.push name).text.toList.take
      ((p.push name).text.toList.length - (name.toList ++ ['.']).length) = p.text.toList := by
    rw [toList_push, List.length_append, Nat.add_sub_cancel, List.take_left]
  rw [pop, if_pos hsuffix, htake, String.ofList_toList]

/-- All that is left of some steps is that the namespaces which are open were entered. -/
theorem Opens.walk_eq (h : Opens steps names) (p : NamespacePath) : p.walk steps = p.enter names := by
  induction h with
  | nil => rfl
  | push h name ih =>
    rw [walk_append, ih, enter_concat]
    rfl
  | @pop steps names name h ih =>
    rw [walk_append, ih, enter_concat]
    exact pop_push (p.enter names) name

/-- Only what was entered is open. -/
theorem Opens.push_mem (h : Opens steps names) {name : String} (hname : name ∈ names) : .push name ∈ steps := by
  induction h with
  | nil => exact absurd hname List.not_mem_nil
  | push h last ih =>
    rw [List.mem_append, List.mem_singleton] at hname ⊢
    exact hname.imp ih (congrArg _)
  | pop h ih => exact List.mem_append_left _ (ih (List.mem_append_left _ hname))

/-! ### Texts -/

/-- A namespace has a proper name if this is not empty and has no dots in it. -/
def IsName (name : String) : Prop := name ≠ "" ∧ '.' ∉ name.toList

instance (name : String) : Decidable (IsName name) := inferInstanceAs (Decidable (_ ∧ _))

/-- The characters of nested namespaces. -/
def spelled (names : List String) : List Char := names.flatMap fun name => name.toList ++ ['.']

theorem toList_enter (p : NamespacePath) (names : List String) :
    (p.enter names).text.toList = p.text.toList ++ spelled names := by
  induction names generalizing p with
  | nil => exact (List.append_nil _).symm
  | cons name names ih => rw [enter, List.foldl_cons, ← enter, ih, toList_push, List.append_assoc]; rfl

@[simp] theorem dotted_nil (x : String) : dotted [] x = x := String.intercalate_singleton

theorem dotted_cons (name : String) (names : List String) (x : String) :
    dotted (name :: names) x = name ++ "." ++ dotted names x :=
  String.intercalate_cons_of_ne_nil (List.append_ne_nil_of_right_ne_nil names (List.cons_ne_nil x []))

theorem toList_dotted_cons (name : String) (names : List String) (x : String) :
    (dotted (name :: names) x).toList = name.toList ++ '.' :: (dotted names x).toList := by
  simp [dotted_cons]

theorem dotted_append (around inner : List String) (x : String) :
    dotted (around ++ inner) x = dotted around (dotted inner x) := by
  induction around with
  | nil => rw [List.nil_append, dotted_nil]
  | cons name around ih => rw [List.cons_append, dotted_cons, dotted_cons, ih]

theorem toList_dotted (names : List String) (x : String) : (dotted names x).toList = spelled names ++ x.toList := by
  induction names with
  | nil => rw [dotted_nil]; rfl
  | cons name names ih => simp [toList_dotted_cons, ih, spelled]

/-- **What is declared in nested namespaces is declared under the name with dots.** -/
theorem qualify_ofNames (names : List String) (x : String) : (ofNames names).qualify x = dotted names x := by
  refine String.toList_injective ?_
  rw [qualify, String.toList_append, ofNames, toList_enter, toList_dotted]
  rfl

/-! ### Taking a path apart -/

theorem split_append_dot {chars : List Char} (h : '.' ∉ chars) (rest : List Char) :
    split (chars ++ '.' :: rest) = chars :: split rest := by
  induction chars with
  | nil => simp [split]
  | cons c chars ih =>
    have hc : c ≠ '.' := fun heq => h (heq ▸ List.mem_cons_self)
    rw [List.cons_append, split, if_neg hc, ih fun hmem => h (List.mem_cons_of_mem _ hmem)]

theorem split_spelled (h : ∀ name ∈ names, IsName name) :
    split (spelled names) = names.map String.toList ++ [[]] := by
  induction names with
  | nil => rfl
  | cons name names ih =>
    have hspelled : spelled (name :: names) = name.toList ++ '.' :: spelled names := by simp [spelled]
    rw [hspelled, split_append_dot (h name List.mem_cons_self).2,
      ih fun other hmem => h other (List.mem_cons_of_mem _ hmem)]
    rfl

/-- **The segments of a path are the namespaces that are open.** -/
theorem segments_ofNames (h : ∀ name ∈ names, IsName name) : (ofNames names).segments = names := by
  have htext : (ofNames names).text.toList = spelled names := toList_enter {} names
  -- Only what stands behind the last dot is empty.
  have hkept : (names.map String.toList).filter (fun part => !part.isEmpty) = names.map String.toList := by
    refine List.filter_eq_self.2 fun part hpart => ?_
    obtain ⟨name, hname, rfl⟩ := List.mem_map.1 hpart
    simpa using (h name hname).1
  have hback : String.ofList ∘ String.toList = id := funext fun name => String.ofList_toList
  rw [segments, htext, split_spelled h, List.filter_append, hkept, List.map_append, List.map_map, hback,
    List.map_id]
  exact List.append_nil names

/-! ### Looking for a name -/

theorem inits_eq_map_take (l : List String) :
    l.inits = [] :: (List.range l.length).map fun i => l.take (i + 1) := by
  refine List.ext_getElem (by simp) fun i hi _ => ?_
  rw [List.getElem_inits]
  cases i with
  | zero => simp
  | succ i => simp

/-- **The forms of a name are those in the namespaces around,** from the innermost one out to none. -/
theorem candidates_ofNames (h : ∀ name ∈ names, IsName name) (x : String) :
    (ofNames names).candidates x = names.inits.reverse.map fun around => dotted around x := by
  have hform : ∀ i < names.length,
      ".".intercalate (names.take (i + 1)) ++ "." ++ x = dotted (names.take (i + 1)) x := by
    intro i hi
    have hne : names.take (i + 1) ≠ [] := by
      rw [Ne, List.take_eq_nil_iff]
      rintro (hzero | rfl)
      · omega
      · exact absurd hi (Nat.not_lt_zero i)
    rw [dotted, String.intercalate_append_of_ne_nil hne (List.cons_ne_nil x []), String.intercalate_singleton]
  have hforms : (List.range names.length).reverse.map
      (fun i => ".".intercalate (names.take (i + 1)) ++ "." ++ x) =
      (List.range names.length).reverse.map fun i => dotted (names.take (i + 1)) x :=
    List.map_congr_left fun i hi => hform i (List.mem_range.1 (List.mem_reverse.1 hi))
  rw [candidates, segments_ofNames h, hforms, inits_eq_map_take, List.reverse_cons, List.map_append,
    ← List.map_reverse, List.map_map, List.map_singleton, dotted_nil]
  rfl

theorem candidates_concat (h : ∀ name ∈ names, IsName name) {name : String} (hname : IsName name) (x : String) :
    (ofNames (names ++ [name])).candidates x =
      dotted (names ++ [name]) x :: (ofNames names).candidates x := by
  have hall : ∀ other ∈ names ++ [name], IsName other := by
    intro other hother
    rcases List.mem_append.1 hother with hother | hother
    · exact h other hother
    · exact List.mem_singleton.1 hother ▸ hname
  have hinits : (names ++ [name]).inits.reverse = (names ++ [name]) :: names.inits.reverse := by
    rw [List.inits_append, List.reverse_append]
    rfl
  rw [candidates_ofNames hall, hinits, List.map_cons, ← candidates_ofNames h]

/-- The first form of a name is the one that it is declared with. -/
theorem head?_candidates (h : ∀ name ∈ names, IsName name) (x : String) :
    ((ofNames names).candidates x).head? = some (dotted names x) := by
  rw [candidates_ofNames h, List.head?_map, List.head?_reverse]
  induction names using List.reverseRecOn with
  | nil => rfl
  | append_singleton names name _ =>
    rw [List.inits_append, List.getLast?_append]
    rfl

theorem mem_candidates_iff (h : ∀ name ∈ names, IsName name) :
    z ∈ (ofNames names).candidates x ↔ ∃ around, around <+: names ∧ dotted around x = z := by
  simp [candidates_ofNames h]

/-! ### Reading a full name -/

/-- Up to the first dot, a text with dots in it is one name. -/
theorem eq_of_append_dot {chars chars' rest rest' : List Char} (h : '.' ∉ chars) (h' : '.' ∉ chars')
    (heq : chars ++ '.' :: rest = chars' ++ '.' :: rest') : chars = chars' ∧ rest = rest' := by
  have hhead := congrArg split heq
  rw [split_append_dot h, split_append_dot h'] at hhead
  obtain ⟨rfl, -⟩ := List.cons.inj hhead
  exact ⟨rfl, (List.cons.inj (List.append_cancel_left heq)).2⟩

/-- **A full name tells where it was declared.** The name `x`, declared in the namespaces `names`, is meant by
`z` in the namespaces `around` exactly if these are the outer ones of `names`, and `z` has the others in it. -/
theorem dotted_eq_dotted_iff (h : ∀ name ∈ names, IsName name) (haround : ∀ name ∈ around, IsName name)
    (hx : '.' ∉ x.toList) :
    dotted around z = dotted names x ↔
      ∃ inner, names = around ++ inner ∧ z = dotted inner x := by
  constructor
  · intro heq
    -- Both texts are read a name at a time: up to its first dot each begins with the outermost namespace.
    induction around generalizing names with
    | nil => exact ⟨names, rfl, (dotted_nil z).symm.trans heq⟩
    | cons name around ih =>
      have hchars := congrArg String.toList heq
      rw [toList_dotted_cons] at hchars
      cases names with
      | nil =>
        rw [dotted_nil] at hchars
        exact absurd (hchars ▸ List.mem_append_right _ List.mem_cons_self) hx
      | cons other names =>
        rw [toList_dotted_cons] at hchars
        obtain ⟨hname, hrest⟩ := eq_of_append_dot (haround name List.mem_cons_self).2
          (h other List.mem_cons_self).2 hchars
        obtain rfl := String.toList_injective hname
        obtain ⟨inner, rfl, hz⟩ := ih (fun n hn => h n (List.mem_cons_of_mem _ hn))
          (fun n hn => haround n (List.mem_cons_of_mem _ hn)) (String.toList_injective hrest)
        exact ⟨inner, rfl, hz⟩
  · rintro ⟨inner, rfl, rfl⟩
    exact (dotted_append around inner x).symm

/-- Names without dots have the same full form only if they are the same, in the same namespaces. -/
theorem dotted_inj (h : ∀ name ∈ names, IsName name) (haround : ∀ name ∈ around, IsName name)
    (hx : '.' ∉ x.toList) (hy : '.' ∉ y.toList) :
    dotted around y = dotted names x ↔ around = names ∧ y = x := by
  rw [dotted_eq_dotted_iff h haround hx]
  constructor
  · rintro ⟨inner, rfl, rfl⟩
    cases inner with
    | nil => exact ⟨(List.append_nil around).symm, dotted_nil x⟩
    | cons name inner =>
      rw [toList_dotted_cons] at hy
      exact absurd (List.mem_append_right _ List.mem_cons_self) hy
  · rintro ⟨rfl, rfl⟩
    exact ⟨[], (List.append_nil around).symm, (dotted_nil y).symm⟩

end TreeFlow.NamespacePath
