import TreeFlow.Ty.Aggregate
import Mathlib.Data.List.Nodup
import Mathlib.Data.List.Perm.Subperm

/-!
# Keys of aggregates

The key of a new aggregate is not taken (`TypeTable.freshKey_not_mem`): of all the numbered candidates
there is one more than there are entries. Declaring an aggregate, or giving it its fields, leaves every
entry in its place (`TypeTable.Extends`), so it never changes what another key refers to
(`TypeTable.Retains`).
-/

namespace TreeFlow

@[simp] theorem AggregateKind.key?_ty (kind : AggregateKind) (key : String) :
    (kind.ty key).key? = some key := by cases kind <;> rfl

/-- What may become of an entry: it stays as it is, or it gets the fields that it did not have. -/
def AggregateDef.Becomes (d e : AggregateDef) : Prop :=
  e = d ∨ d.fields = none ∧ ∃ fields, e = { d with fields := some fields }

namespace AggregateDef.Becomes

variable {d e f : AggregateDef}

theorem refl (d : AggregateDef) : d.Becomes d := .inl rfl

theorem trans (hde : d.Becomes e) (hef : e.Becomes f) : d.Becomes f := by
  rcases hde with rfl | ⟨hnone, fields, rfl⟩
  · exact hef
  · rcases hef with rfl | ⟨hsome, -⟩
    · exact .inr ⟨hnone, fields, rfl⟩
    · cases hsome

theorem key (h : d.Becomes e) : e.key = d.key := by
  rcases h with rfl | ⟨-, fields, rfl⟩ <;> rfl

theorem kind (h : d.Becomes e) : e.kind = d.kind := by
  rcases h with rfl | ⟨-, fields, rfl⟩ <;> rfl

end AggregateDef.Becomes

namespace TypeTable

variable {t u v : TypeTable} {key base : String}

/-! ### Fresh keys -/

/-- The keys that are taken. -/
def keys (t : TypeTable) : List String := t.entries.toList.map AggregateDef.key

theorem contains_iff : t.contains key = true ↔ key ∈ t.keys := by
  simp [contains, find?, keys, Array.find?_isSome]

/-- The candidates are tried in order. One is only given up if it is taken, and only the last one is not looked at. -/
theorem exists_numberedKey_eq (t : TypeTable) (base : String) (tries n : Nat) :
    ∃ i ≤ tries, t.numberedKey base tries n = s!"{base}.{n + i}" ∧ (∀ j < i, s!"{base}.{n + j}" ∈ t.keys) ∧
      (i < tries → t.numberedKey base tries n ∉ t.keys) := by
  induction tries generalizing n with
  | zero =>
    exact ⟨0, Nat.le_refl 0, rfl, fun j hj => absurd hj (Nat.not_lt_zero j), fun h => absurd h (Nat.lt_irrefl 0)⟩
  | succ tries ih =>
    rw [numberedKey]
    split
    · next htaken =>
      obtain ⟨i, hi, hkey, hbefore, hfree⟩ := ih (n + 1)
      have hnext (j : Nat) : n + 1 + j = n + (j + 1) := Nat.add_right_comm n 1 j
      refine ⟨i + 1, Nat.succ_le_succ hi, hnext i ▸ hkey, fun j hj => ?_, fun h => hfree (Nat.lt_of_succ_lt_succ h)⟩
      cases j with
      | zero => exact contains_iff.1 htaken
      | succ j => exact hnext j ▸ hbefore j (Nat.lt_of_succ_lt_succ hj)
    · next hfree =>
      exact ⟨0, Nat.zero_le _, rfl, fun j hj => absurd hj (Nat.not_lt_zero j), fun _ => mt contains_iff.2 hfree⟩

theorem numbered_injective (base : String) : Function.Injective fun n : Nat => s!"{base}.{n}" := by
  intro i j h
  have hrepr : i.repr = j.repr := by simpa using h
  rw [Nat.repr_eq_ofList_toDigits, Nat.repr_eq_ofList_toDigits] at hrepr
  -- The digits of a number tell what it is.
  have hread := congrArg (Nat.ofDigitChars 10 · 0) (String.ofList_injective hrepr)
  simpa only [Nat.ofDigitChars_ten_toDigits] using hread

/-- **A fresh key is not taken.** -/
theorem freshKey_not_mem (t : TypeTable) (base : String) : t.freshKey base ∉ t.keys := by
  intro h
  rw [freshKey] at h
  split at h
  · obtain ⟨i, hi, hkey, hbefore, hfree⟩ := exists_numberedKey_eq t base t.entries.size 0
    -- All the candidates are taken, which are more than there are entries.
    obtain rfl : i = t.entries.size := Nat.le_antisymm hi (Nat.le_of_not_lt fun hlt => hfree hlt h)
    rw [Nat.zero_add] at hkey
    have htaken : (List.range (t.entries.size + 1)).map (fun n => s!"{base}.{n}") ⊆ t.keys := by
      intro key hmem
      obtain ⟨j, hj, rfl⟩ := List.mem_map.1 hmem
      rcases Nat.lt_or_eq_of_le (Nat.lt_succ_iff.1 (List.mem_range.1 hj)) with hlt | rfl
      · exact Nat.zero_add j ▸ hbefore j hlt
      · exact hkey ▸ h
    have hdistinct : ((List.range (t.entries.size + 1)).map fun n => s!"{base}.{n}").Nodup :=
      List.nodup_range.map (numbered_injective base)
    have hlength := (hdistinct.subperm htaken).length_le
    have hmore : t.entries.size + 1 ≤ t.entries.size := by simpa [keys] using hlength
    omega
  · next hfree => exact hfree (contains_iff.2 h)

/-! ### Later tables -/

/-- The kind of the aggregate that a key refers to. -/
def kindOf? (t : TypeTable) (key : String) : Option AggregateKind := (t.find? key).map (·.kind)

theorem kindOf?_eq_some_iff {kind : AggregateKind} :
    t.kindOf? key = some kind ↔ ∃ d, t.find? key = some d ∧ d.kind = kind := by
  simp [kindOf?]

/-- What a key refers to in one table it refers to in a later one. -/
def Retains (t u : TypeTable) : Prop :=
  ∀ key kind, t.kindOf? key = some kind → u.kindOf? key = some kind

theorem kindOf?_declare (t : TypeTable) (kind : AggregateKind) (name key : String) :
    (t.declare kind name).2.kindOf? key =
      if t.freshKey s!"{kind.text}.{name}" = key then some kind else t.kindOf? key := by
  have hfresh := freshKey_not_mem t s!"{kind.text}.{name}"
  simp only [declare, kindOf?, find?, Array.find?_push, beq_iff_eq]
  split
  · next heq =>
    subst heq
    have hnone : t.entries.find? (·.key == t.freshKey s!"{kind.text}.{name}") = none := by
      rw [← Option.not_isSome_iff_eq_none]
      exact fun hsome => hfresh (contains_iff.1 hsome)
    simp [hnone]
  · next hne => simp

/-- The key of an aggregate that was just declared refers to it. -/
theorem kindOf?_declare_self (t : TypeTable) (kind : AggregateKind) (name : String) :
    (t.declare kind name).2.kindOf? (t.freshKey s!"{kind.text}.{name}") = some kind := by
  rw [kindOf?_declare, if_pos rfl]

/-! ### Tables that grow -/

/-- A later table has the entries of an earlier one in their places, each as it was or with the fields that
it did not have. There may be more entries behind them. -/
def Extends (t u : TypeTable) : Prop :=
  ∀ (i : Nat) (d : AggregateDef), t.entries[i]? = some d → ∃ e, u.entries[i]? = some e ∧ d.Becomes e

theorem Extends.refl (t : TypeTable) : t.Extends t := fun _ d h => ⟨d, h, .refl d⟩

theorem Extends.trans (htu : t.Extends u) (huv : u.Extends v) : t.Extends v := fun i d hd =>
  have ⟨e, he, hde⟩ := htu i d hd
  have ⟨f, hf, hef⟩ := huv i e he
  ⟨f, hf, hde.trans hef⟩

theorem extends_declare (t : TypeTable) (kind : AggregateKind) (name : String) :
    t.Extends (t.declare kind name).2 := by
  intro i d hd
  refine ⟨d, ?_, .refl d⟩
  obtain ⟨hi, rfl⟩ := Array.getElem?_eq_some_iff.1 hd
  simp [declare, Array.getElem?_push_lt hi]

theorem extends_define {fields : List Field} (h : t.define key fields = .ok u) : t.Extends u := by
  rw [define] at h
  split at h
  · cases h
  · next i _ =>
    split at h
    · next key name kind hd =>
      obtain rfl := Except.ok.inj h
      intro j e he
      by_cases hij : i = j
      · subst hij
        obtain rfl : ⟨key, name, kind, none⟩ = e := Option.some.inj (hd.symm.trans he)
        have hi : i < t.entries.size := (Array.getElem?_eq_some_iff.1 hd).1
        exact ⟨⟨key, name, kind, some fields⟩, by simp [hi], .inr ⟨rfl, fields, rfl⟩⟩
      · exact ⟨e, by simpa [Array.getElem?_setIfInBounds_ne hij] using he, .refl e⟩
    · cases h

/-- An aggregate that was just given its fields is found with them. -/
theorem exists_find?_of_define {fields : List Field} (h : t.define key fields = .ok u) :
    ∃ d, u.find? key = some d ∧ d.key = key ∧ d.fields = some fields := by
  rw [define] at h
  split at h
  · cases h
  · next i hindex =>
    obtain ⟨hi, hkey, hbefore⟩ := Array.findIdx?_eq_some_iff_getElem.1 hindex
    split at h
    · next key' name kind hentry =>
      obtain rfl := Except.ok.inj h
      have hsame : t.entries[i] = ⟨key', name, kind, none⟩ := (Array.getElem?_eq_some_iff.1 hentry).2
      obtain rfl : key' = key := by simpa [hsame] using hkey
      refine ⟨⟨key', name, kind, some fields⟩, ?_, rfl, rfl⟩
      refine Array.find?_eq_some_iff_getElem.2 ⟨by simp, i, by simpa using hi, by simp, fun j hj => ?_⟩
      have hne : i ≠ j := by omega
      have hkept := @Array.getElem_setIfInBounds_ne _ t.entries i ⟨key', name, kind, some fields⟩ j
        (Nat.lt_trans hj hi) hne
      simpa [hkept] using hbefore j hj
    · cases h

theorem isDefined_of_define {fields : List Field} (h : t.define key fields = .ok u) : u.isDefined key := by
  obtain ⟨d, hfind, -, hfields⟩ := exists_find?_of_define h
  rw [isDefined, hfind]
  simp [hfields]

/-- What a key refers to is at the same place in a later table. -/
theorem Extends.find? (h : t.Extends u) {d : AggregateDef} (hd : t.find? key = some d) :
    ∃ e, u.find? key = some e ∧ d.Becomes e := by
  obtain ⟨hkey, i, hi, rfl, hbefore⟩ := Array.find?_eq_some_iff_getElem.1 hd
  obtain ⟨e, he, hbecomes⟩ := h i t.entries[i] (Array.getElem?_eq_getElem hi)
  obtain ⟨hi', rfl⟩ := Array.getElem?_eq_some_iff.1 he
  refine ⟨_, Array.find?_eq_some_iff_getElem.2 ⟨by rwa [hbecomes.key], i, hi', rfl, fun j hj => ?_⟩, hbecomes⟩
  obtain ⟨e, he, hsame⟩ := h j t.entries[j] (Array.getElem?_eq_getElem (Nat.lt_trans hj hi))
  obtain ⟨_, rfl⟩ := Array.getElem?_eq_some_iff.1 he
  rw [hsame.key]
  exact hbefore j hj

/-- A table that grows keeps the kinds of its aggregates. -/
theorem Extends.retains (h : t.Extends u) : t.Retains u := by
  intro key kind hkind
  obtain ⟨d, hd, rfl⟩ := kindOf?_eq_some_iff.1 hkind
  obtain ⟨e, he, hbecomes⟩ := h.find? hd
  exact kindOf?_eq_some_iff.2 ⟨e, he, hbecomes.kind⟩

/-! ### What holds of all fields -/

/-- The types of all fields have a property. -/
def AllFields (P : Ty → Prop) (t : TypeTable) : Prop :=
  ∀ d ∈ t.entries, ∀ fields, d.fields = some fields → ∀ f ∈ fields, P f.ty

namespace AllFields

variable {P : Ty → Prop}

theorem declare (h : t.AllFields P) (kind : AggregateKind) (name : String) : (t.declare kind name).2.AllFields P := by
  intro d hd fields hfields
  rcases Array.mem_push.1 hd with hd | rfl
  · exact h d hd fields hfields
  · cases hfields

theorem define {fields : List Field} (h : t.AllFields P) (hfields : ∀ f ∈ fields, P f.ty)
    (hdefine : t.define key fields = .ok u) : u.AllFields P := by
  unfold TypeTable.define at hdefine
  split at hdefine
  · cases hdefine
  · next i hi =>
    split at hdefine
    · obtain rfl := Except.ok.inj hdefine
      intro d hd found hfound
      rcases Array.mem_or_eq_of_mem_setIfInBounds hd with hd | rfl
      · exact h d hd found hfound
      · exact Option.some.inj hfound ▸ hfields
    · cases hdefine

theorem find? {d : AggregateDef} {name : String} {i : Nat} {f : Field} (h : t.AllFields P)
    (hd : t.find? key = some d) (hf : d.findField? name = some (i, f)) : P f.ty := by
  obtain ⟨fields, hfields, hf⟩ := Option.bind_eq_some_iff.1 hf
  obtain ⟨j, -, hf⟩ := Option.bind_eq_some_iff.1 hf
  obtain ⟨g, hg, hf⟩ := Option.bind_eq_some_iff.1 hf
  cases hf
  exact h d (Array.mem_of_find?_eq_some hd) fields hfields f (List.mem_of_getElem? hg)

end AllFields

end TypeTable

end TreeFlow
