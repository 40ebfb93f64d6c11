import TreeFlow.Proofs.Graph.Aggregates
import TreeFlow.Proofs.Machine.Basic
import TreeFlow.Ty.Layout

/-!
# Sizes that are settled

The size of a type is searched for only so many aggregates deep, in the table as it is. Neither matters where
the search comes to an end: what it finds it also finds when it may go deeper, and in every table that the
table grows into (`Layout.aggregateAlign_mono`, `Layout.aggregateSize_mono`). So **a size or an alignment,
once it is there, is settled** (`Layout.sizeOf_of_extends`, `Layout.alignOf_of_extends`), and the size of an
aggregate is told from the sizes of its fields, as if the search had no bound (`Layout.cases_of_sizeOf`,
`Layout.cases_of_alignOf`).
-/

namespace TreeFlow

namespace Layout

variable {L : Layout} {T U : TypeTable} {t : Ty} {ts : List Ty} {key : String} {n most offset : Nat}

/-- The fields of an aggregate that has them are the same in a later table. -/
theorem fieldTypes_of_extends (hT : T.Extends U) (h : fieldTypes T key = .ok ts) :
    fieldTypes U key = .ok ts := by
  unfold fieldTypes at h
  split at h
  · cases h
  next d hd =>
  obtain ⟨e, he, hbecomes⟩ := hT.find? hd
  split at h
  · cases h
  next fields hfields =>
  have hsame : e = d := hbecomes.resolve_right fun hnone => by
    rw [hnone.1] at hfields
    cases hfields
  rw [fieldTypes, he, hsame]
  simp only [hfields]
  exact h

/-! ### Alignments -/

theorem alignWith_mono {f g : String → Except LayoutError Nat} (hfg : ∀ key n, f key = .ok n → g key = .ok n)
    (h : L.alignWith f t = .ok n) : L.alignWith g t = .ok n := by
  induction t using alignWith.induct with
  | case1 t _ ih => exact ih h
  | case2 key => exact hfg key n h
  | case3 key => exact hfg key n h
  | case4 t harray hstruct hunion =>
    rw [alignWith] at h ⊢
    · exact h
    all_goals assumption

theorem alignAll_mono {f g : Ty → Except LayoutError Nat} (hfg : ∀ t n, f t = .ok n → g t = .ok n)
    (h : alignAll f ts most = .ok n) : alignAll g ts most = .ok n := by
  induction ts generalizing most with
  | nil => exact h
  | cons t ts ih =>
    obtain ⟨a, ha, h⟩ := exists_of_bind_ok h
    have hrest : alignAll g ts (max most a) = .ok n := ih h
    rw [alignAll, hfg t a ha]
    exact hrest

/-- An alignment that is found is also found deeper, and in a later table. -/
theorem aggregateAlign_mono (hT : T.Extends U) {d e : Nat} (hde : d ≤ e)
    (h : L.aggregateAlign T d key = .ok n) : L.aggregateAlign U e key = .ok n := by
  -- On the depth of the search that found it; the other one may go at least as deep.
  induction d generalizing e key n with
  | zero => cases h
  | succ d ih =>
    obtain ⟨e, rfl⟩ : ∃ k, e = k + 1 := Nat.exists_eq_succ_of_ne_zero (by omega)
    obtain ⟨ts, hts, h⟩ := exists_of_bind_ok h
    rw [aggregateAlign, fieldTypes_of_extends hT hts]
    have hinner : ∀ t a, L.alignWith (L.aggregateAlign T d) t = .ok a →
        L.alignWith (L.aggregateAlign U e) t = .ok a := by
      intro t a
      exact alignWith_mono fun key n => ih (Nat.le_of_succ_le_succ hde)
    change (if L.packed then _ else _) = _ at h
    change (if L.packed then _ else _) = _
    split at h <;> rename_i hpacked
    · rw [if_pos hpacked]
      exact h
    · rw [if_neg hpacked]
      exact alignAll_mono hinner h

theorem depth_le (hT : T.Extends U) : depth T ≤ depth U := by
  have hsize : T.entries.size ≤ U.entries.size := by
    -- Every entry is kept at its place, so the later table is not shorter.
    refine Nat.le_of_not_lt fun hlt => ?_
    obtain ⟨e, he, -⟩ := hT U.entries.size _ (Array.getElem?_eq_getElem hlt)
    simp at he
  exact Nat.succ_le_succ hsize

/-- **An alignment is settled.** It is the same in every later table. -/
theorem alignOf_of_extends (hT : T.Extends U) (h : L.alignOf T t = .ok n) : L.alignOf U t = .ok n :=
  alignWith_mono (fun _ _ => aggregateAlign_mono hT (depth_le hT)) h

theorem alignTo_of_extends (hT : T.Extends U) (h : L.alignTo T offset t = .ok n) :
    L.alignTo U offset t = .ok n := by
  change (if L.packed then _ else _) = _ at h
  change (if L.packed then _ else _) = _
  split at h <;> rename_i hpacked
  · rw [if_pos hpacked]
    exact h
  · obtain ⟨a, ha, h⟩ := exists_of_bind_ok h
    rw [if_neg hpacked, alignOf_of_extends hT ha]
    exact h

/-! ### Sizes -/

theorem sizeWith_mono {f g : Ty → Except LayoutError Nat} (hfg : ∀ t n, f t = .ok n → g t = .ok n)
    (h : L.sizeWith f t = .ok n) : L.sizeWith g t = .ok n := by
  induction t using sizeWith.induct generalizing n with
  | case1 t length ih =>
    obtain ⟨size, hsize, h⟩ := exists_of_bind_ok h
    rw [sizeWith, ih hsize]
    exact h
  | case2 key => exact hfg _ n h
  | case3 key => exact hfg _ n h
  | case4 t harray hstruct hunion =>
    rw [sizeWith] at h ⊢
    · exact h
    all_goals assumption

theorem structEnd_mono (hT : T.Extends U) {f g : Ty → Except LayoutError Nat}
    (hfg : ∀ t n, f t = .ok n → g t = .ok n) (h : L.structEnd T f ts offset = .ok n) :
    L.structEnd U g ts offset = .ok n := by
  induction ts generalizing offset with
  | nil => exact h
  | cons t ts ih =>
    obtain ⟨start, hstart, h⟩ := exists_of_bind_ok h
    obtain ⟨size, hsize, h⟩ := exists_of_bind_ok h
    obtain ⟨stop, hstop, h⟩ := exists_of_bind_ok h
    have hrest : L.structEnd U g ts stop = .ok n := ih h
    rw [structEnd, alignTo_of_extends hT hstart]
    simp only [hfg t size hsize, hstop, bind, Except.bind]
    exact hrest

theorem unionEnd_mono {f g : Ty → Except LayoutError Nat} (hfg : ∀ t n, f t = .ok n → g t = .ok n)
    (h : unionEnd f ts most = .ok n) : unionEnd g ts most = .ok n := by
  induction ts generalizing most with
  | nil => exact h
  | cons t ts ih =>
    obtain ⟨size, hsize, h⟩ := exists_of_bind_ok h
    have hrest : unionEnd g ts (max most size) = .ok n := ih h
    rw [unionEnd, hfg t size hsize]
    exact hrest

/-- Where the fields of an aggregate end: those of a union begin at the same place. -/
def fieldsEnd (L : Layout) (T : TypeTable) (size : Ty → Except LayoutError Nat) (ts : List Ty) :
    Ty → Except LayoutError Nat
  | .union _ => unionEnd size ts 0
  | _ => L.structEnd T size ts 0

/-- The size of an aggregate is the end of its fields, brought to its alignment. -/
theorem aggregateSize_succ (L : Layout) (T : TypeTable) (d : Nat) (t : Ty) :
    L.aggregateSize T (d + 1) t = (do
      let ts ← fieldTypes T (t.key?.getD "")
      let stop ← L.fieldsEnd T (L.sizeWith (L.aggregateSize T d)) ts t
      L.alignTo T stop t) := by
  cases t <;> rfl

theorem fieldsEnd_mono (hT : T.Extends U) {f g : Ty → Except LayoutError Nat}
    (hfg : ∀ t n, f t = .ok n → g t = .ok n) (h : L.fieldsEnd T f ts t = .ok n) :
    L.fieldsEnd U g ts t = .ok n := by
  cases t with
  | union key => exact unionEnd_mono hfg h
  | _ => exact structEnd_mono hT hfg h

/-- A size that is found is also found deeper, and in a later table. -/
theorem aggregateSize_mono (hT : T.Extends U) {d e : Nat} (hde : d ≤ e)
    (h : L.aggregateSize T d t = .ok n) : L.aggregateSize U e t = .ok n := by
  induction d generalizing e t n with
  | zero => cases h
  | succ d ih =>
    obtain ⟨e, rfl⟩ : ∃ k, e = k + 1 := Nat.exists_eq_succ_of_ne_zero (by omega)
    have hinner : ∀ t k, L.sizeWith (L.aggregateSize T d) t = .ok k →
        L.sizeWith (L.aggregateSize U e) t = .ok k := by
      intro t k
      exact sizeWith_mono fun t n => ih (Nat.le_of_succ_le_succ hde)
    rw [aggregateSize_succ] at h ⊢
    obtain ⟨ts, hts, h⟩ := exists_of_bind_ok h
    obtain ⟨stop, hstop, hpad⟩ := exists_of_bind_ok h
    have hend : L.fieldsEnd U (L.sizeWith (L.aggregateSize U e)) ts t = .ok stop :=
      fieldsEnd_mono hT hinner hstop
    simp only [fieldTypes_of_extends hT hts, hend, bind, Except.bind]
    exact alignTo_of_extends hT hpad

/-- **A size is settled.** It is the same in every later table. -/
theorem sizeOf_of_extends (hT : T.Extends U) (h : L.sizeOf T t = .ok n) : L.sizeOf U t = .ok n :=
  sizeWith_mono (fun _ _ => aggregateSize_mono hT (depth_le hT)) h

/-! ### Aggregates, taken apart -/

/-- An aggregate is as large as its fields reach, brought to its alignment. -/
theorem cases_of_sizeOf (hkey : t.key? = some key) (h : L.sizeOf T t = .ok n) :
    ∃ ts stop, fieldTypes T key = .ok ts ∧ L.fieldsEnd T (L.sizeOf T) ts t = .ok stop ∧
      L.alignTo T stop t = .ok n := by
  have haggregate : L.aggregateSize T (T.entries.size + 1) t = .ok n := by
    cases t with
    | struct | union => exact h
    | _ => cases hkey
  rw [aggregateSize_succ, hkey] at haggregate
  obtain ⟨ts, hts, h⟩ := exists_of_bind_ok haggregate
  obtain ⟨stop, hstop, hpad⟩ := exists_of_bind_ok h
  have hinner : ∀ t k, L.sizeWith (L.aggregateSize T T.entries.size) t = .ok k → L.sizeOf T t = .ok k :=
    fun t k => sizeWith_mono fun _ _ => aggregateSize_mono (.refl T) (Nat.le_succ _)
  exact ⟨ts, stop, hts, fieldsEnd_mono (.refl T) hinner hstop, hpad⟩

/-- Where there is padding, an aggregate is aligned to the greatest alignment among its fields. -/
theorem cases_of_alignOf (hpadded : L.packed = false) (hkey : t.key? = some key) (h : L.alignOf T t = .ok n) :
    ∃ ts, fieldTypes T key = .ok ts ∧ alignAll (L.alignOf T) ts 1 = .ok n := by
  have haggregate : L.aggregateAlign T (T.entries.size + 1) key = .ok n := by
    cases t with
    | struct k | union k =>
      obtain rfl := Option.some.inj hkey
      exact h
    | _ => cases hkey
  obtain ⟨ts, hts, hall⟩ := exists_of_bind_ok haggregate
  change (if L.packed then _ else _) = _ at hall
  rw [hpadded] at hall
  have hinner : ∀ t k, L.alignWith (L.aggregateAlign T T.entries.size) t = .ok k → L.alignOf T t = .ok k :=
    fun t k => alignWith_mono fun _ _ => aggregateAlign_mono (.refl T) (Nat.le_succ _)
  exact ⟨ts, hts, alignAll_mono hinner hall⟩

end Layout

end TreeFlow
