import Mathlib.Logic.Relation
import TreeFlow.Proofs.Ty.Sizes

/-!
# Aggregates inside of each other

An aggregate lies in another one if a field of that one has it for its type (`TypeTable.Embeds`). Fields that
are pointers to it, or arrays of it, do not count. If an aggregate is only given fields whose aggregates have
their own fields by then, the table comes in layers: in the order in which fields were given, every aggregate
stands behind those that lie in it (`TypeTable.IsLayered`).

So **no chain of fields leads from an aggregate back to it** (`TypeTable.IsLayered.not_embeds`), and the searches
for sizes, alignments and offsets come to an end, unless a field is an array of aggregates
(`Layout.exists_array_of_recursive`).
-/

namespace TreeFlow

namespace TypeTable

variable {T U : TypeTable} {key outer inner : String} {order rest : List String} {fields : List Field}

/-! ### What becomes of entries -/

theorem isDefined_iff : T.isDefined key = true ↔ ∃ d fields, T.find? key = some d ∧ d.fields = some fields := by
  rw [isDefined]
  split <;> simp_all [Option.isSome_iff_exists]

theorem mem_keys_of_isDefined (h : T.isDefined key = true) : key ∈ T.keys := by
  obtain ⟨d, fields, hd, -⟩ := isDefined_iff.1 h
  exact contains_iff.1 (by rw [contains, hd]; rfl)

/-- What has its fields has them in every later table. -/
theorem Extends.isDefined (h : T.Extends U) (hkey : T.isDefined key = true) : U.isDefined key = true := by
  obtain ⟨d, fields, hd, hfields⟩ := isDefined_iff.1 hkey
  obtain ⟨e, he, rfl | ⟨hnone, -⟩⟩ := h.find? hd
  · exact isDefined_iff.2 ⟨_, fields, he, hfields⟩
  · simp [hnone] at hfields

/-- A new aggregate has no fields, and the others are as they were. -/
theorem find?_declare (T : TypeTable) (kind : AggregateKind) (name key : String) :
    (∃ d, (T.declare kind name).2.find? key = some d ∧ d.fields = none ∧ T.find? key = none) ∨
      (T.declare kind name).2.find? key = T.find? key := by
  by_cases heq : T.freshKey s!"{kind.text}.{name}" = key
  · have hfresh : ¬ T.contains key := fun h =>
      freshKey_not_mem T s!"{kind.text}.{name}" (heq ▸ contains_iff.1 h)
    have hnone : T.find? key = none := by simpa [contains] using hfresh
    refine .inl ⟨⟨key, name, kind, none⟩, ?_, rfl, hnone⟩
    rw [find?] at hnone
    simp [declare, find?, Array.find?_push, heq, hnone]
  · exact .inr (by simp [declare, find?, Array.find?_push, heq])

theorem find?_set_of_not {α : Type} {p : α → Bool} {l : List α} {i : Nat} {a b : α} (hb : l[i]? = some b)
    (hold : p b = false) (hnew : p a = false) : (l.set i a).find? p = l.find? p := by
  induction l generalizing i with
  | nil => rfl
  | cons c l ih =>
    cases i with
    | zero =>
      obtain rfl : c = b := by simpa using hb
      simp [hold, hnew]
    | succ i =>
      simp only [List.set_cons_succ, List.find?_cons]
      rw [ih (by simpa using hb)]

/-- An aggregate gets the fields that it did not have, and the others are as they were. -/
theorem find?_of_define (h : T.define key fields = .ok U) :
    T.isDefined key = false ∧ ∀ other, other ≠ key → U.find? other = T.find? other := by
  rw [define] at h
  split at h
  · cases h
  next i hindex =>
  obtain ⟨hi, hkey, hbefore⟩ := Array.findIdx?_eq_some_iff_getElem.1 hindex
  split at h
  case h_2 => cases h
  next key' name kind hentry =>
  obtain rfl := Except.ok.inj h
  have hsame : T.entries[i] = ⟨key', name, kind, none⟩ := (Array.getElem?_eq_some_iff.1 hentry).2
  obtain rfl : key' = key := by simpa [hsame] using hkey
  have hfind : T.find? key' = some ⟨key', name, kind, none⟩ :=
    Array.find?_eq_some_iff_getElem.2 ⟨by simp, i, hi, hsame, by simpa using hbefore⟩
  refine ⟨by simp [isDefined, hfind], fun other hother => ?_⟩
  have hnot : (key' == other) = false := by simpa using fun heq => hother heq.symm
  rw [find?, find?, ← Array.find?_toList, ← Array.find?_toList]
  have hentry : T.entries.toList[i]? = some ⟨key', name, kind, none⟩ := by simpa using hentry
  simpa using find?_set_of_not (p := fun d : AggregateDef => d.key == other)
    (a := ⟨key', name, kind, some fields⟩) hentry hnot hnot

/-! ### Layers -/

/-- A field of the outer aggregate has the inner one for its type. -/
def Embeds (T : TypeTable) (outer inner : String) : Prop :=
  ∃ d fields, T.find? outer = some d ∧ d.fields = some fields ∧ ∃ f ∈ fields, f.ty.key? = some inner

theorem Embeds.isDefined (h : T.Embeds outer inner) : T.isDefined outer = true := by
  obtain ⟨d, fields, hd, hfields, -⟩ := h
  exact isDefined_iff.2 ⟨d, fields, hd, hfields⟩

/-- Some aggregates, the latest first, each of them in front of those that lie in it. -/
inductive Layered (T : TypeTable) : List String → Prop
  | nil : Layered T []
  | cons {key : String} {rest : List String} (hrest : Layered T rest) (hnew : key ∉ rest)
      (hinner : ∀ inner, T.Embeds key inner → inner ∈ rest) : Layered T (key :: rest)

namespace Layered

theorem nodup (h : T.Layered order) : order.Nodup := by
  induction h with
  | nil => exact List.nodup_nil
  | cons _ hnew _ ih => exact List.nodup_cons.2 ⟨hnew, ih⟩

/-- The layers of a table are those of another one where nothing else lies in these aggregates. -/
theorem of_embeds (h : T.Layered order) (hsame : ∀ outer ∈ order, ∀ inner, U.Embeds outer inner → T.Embeds outer inner) :
    U.Layered order := by
  induction h with
  | nil => exact .nil
  | cons hrest hnew hinner ih =>
    exact .cons (ih fun outer houter => hsame outer (List.mem_cons_of_mem _ houter)) hnew
      fun inner h => hinner inner (hsame _ List.mem_cons_self inner h)

/-- What lies in one of the aggregates is one of them. -/
theorem mem_of_embeds (h : T.Layered order) (houter : outer ∈ order) (hin : T.Embeds outer inner) :
    inner ∈ order := by
  induction h with
  | nil => cases houter
  | cons hrest hnew hinner ih =>
    rcases List.mem_cons.1 houter with rfl | hlater
    · exact List.mem_cons_of_mem _ (hinner inner hin)
    · exact List.mem_cons_of_mem _ (ih hlater)

theorem mem_of_chain (h : T.Layered order) (houter : outer ∈ order)
    (hchain : Relation.ReflTransGen T.Embeds outer inner) : inner ∈ order := by
  induction hchain with
  | refl => exact houter
  | tail _ hin ih => exact h.mem_of_embeds ih hin

theorem not_embeds (h : T.Layered order) (hkey : key ∈ order) : ¬ Relation.TransGen T.Embeds key key := by
  induction h with
  | nil => cases hkey
  | cons hrest hnew hinner ih =>
    rcases List.mem_cons.1 hkey with rfl | hlater
    · intro hcycle
      -- The chain goes to an earlier aggregate at once, and stays among those.
      obtain ⟨inner, hin, hback⟩ := Relation.TransGen.head'_iff.1 hcycle
      exact hnew (hrest.mem_of_chain (hinner inner hin) hback)
    · exact ih hlater

end Layered

/-- The aggregates that have fields were given them in such an order that each of them comes after those that lie
in it. -/
def IsLayered (T : TypeTable) : Prop := ∃ order, T.Layered order ∧ ∀ key, key ∈ order ↔ T.isDefined key = true

theorem isLayered_empty : IsLayered {} :=
  ⟨[], .nil, fun key => by simp [isDefined, find?]⟩

namespace IsLayered

/-- A declaration adds nothing to the layers. -/
theorem declare (h : T.IsLayered) (kind : AggregateKind) (name : String) : (T.declare kind name).2.IsLayered := by
  obtain ⟨order, hlayers, horder⟩ := h
  refine ⟨order, hlayers.of_embeds fun outer _ inner ⟨d, fields, hd, hfields, hin⟩ => ?_, fun key => ?_⟩
  · rcases T.find?_declare kind name outer with ⟨e, he, hnone, -⟩ | hsame
    · obtain rfl := Option.some.inj (hd.symm.trans he)
      simp [hnone] at hfields
    · exact ⟨d, fields, hsame ▸ hd, hfields, hin⟩
  · rw [horder, isDefined, isDefined]
    rcases T.find?_declare kind name key with ⟨e, he, hnone, hfresh⟩ | hsame
    · simp [he, hnone, hfresh]
    · rw [hsame]

/-- The aggregate that is given its fields is the latest one, if all that lie in it have theirs. -/
theorem define (h : T.IsLayered) (hdefine : T.define key fields = .ok U)
    (hfields : ∀ f ∈ fields, ∀ inner, f.ty.key? = some inner → T.isDefined inner = true) : U.IsLayered := by
  obtain ⟨order, hlayers, horder⟩ := h
  obtain ⟨hbefore, hothers⟩ := find?_of_define hdefine
  obtain ⟨d, hd, -, hgiven⟩ := exists_find?_of_define hdefine
  have hnew : key ∉ order := fun hmem => by
    rw [(horder key).1 hmem] at hbefore
    cases hbefore
  refine ⟨key :: order, .cons (hlayers.of_embeds fun outer houter inner hin => ?_) hnew fun inner hin => ?_,
    fun other => ?_⟩
  · obtain ⟨e, es, he, hes, hin⟩ := hin
    exact ⟨e, es, hothers outer (ne_of_mem_of_not_mem houter hnew) ▸ he, hes, hin⟩
  · obtain ⟨e, es, he, hes, f, hf, hinner⟩ := hin
    obtain rfl := Option.some.inj (hd.symm.trans he)
    obtain rfl := Option.some.inj (hgiven.symm.trans hes)
    exact (horder inner).2 (hfields f hf inner hinner)
  · by_cases heq : other = key
    · subst heq
      simp [isDefined_of_define hdefine]
    · rw [List.mem_cons, or_iff_right heq, horder, isDefined, isDefined, hothers other heq]

/-- **No aggregate lies in itself**, however many fields one goes down. -/
theorem not_embeds (h : T.IsLayered) (key : String) : ¬ Relation.TransGen T.Embeds key key := by
  obtain ⟨order, hlayers, horder⟩ := h
  intro hcycle
  obtain ⟨inner, hin, -⟩ := Relation.TransGen.head'_iff.1 hcycle
  exact hlayers.not_embeds ((horder key).2 hin.isDefined) hcycle

end IsLayered

/-- Some field is an array of aggregates. -/
def HoldsArray (T : TypeTable) : Prop :=
  ∃ outer d fields, T.find? outer = some d ∧ d.fields = some fields ∧
    ∃ f ∈ fields, f.ty.isArray = true ∧ f.ty.core.key?.isSome = true

end TypeTable

/-! ### Searches that end -/

namespace Layout

variable {L : Layout} {T : TypeTable} {t : Ty} {ts : List Ty} {key : String} {order : List String}

/-- A search was not cut off, whatever it came to. -/
def Ends {α : Type} (r : Except LayoutError α) : Prop := ∀ key, r ≠ .error (.recursive key)

namespace Ends

variable {α β : Type}

theorem ok (a : α) : Ends (.ok a) := nofun

theorem bind {r : Except LayoutError α} {next : α → Except LayoutError β} (hr : Ends r)
    (hnext : ∀ a, r = .ok a → Ends (next a)) : Ends (r >>= next) := by
  cases r with
  | error e => exact fun key h => hr key (by cases h; rfl)
  | ok a => exact hnext a rfl

theorem checked (n : Nat) : Ends (Layout.checked n) := by
  unfold Layout.checked
  split <;> nofun

theorem roundUp (offset align : Nat) : Ends (Layout.roundUp offset align) := by
  unfold Layout.roundUp
  split
  · exact .ok _
  · unfold Layout.checked
    split <;> nofun

theorem scalarSize (L : Layout) (t : Ty) : Ends (L.scalarSize t) := by
  cases t <;> nofun

theorem fieldTypes (T : TypeTable) (key : String) : Ends (Layout.fieldTypes T key) := by
  unfold Layout.fieldTypes
  split
  · nofun
  · split <;> nofun

end Ends

/-- In an aggregate without fields there is nothing to search for. -/
theorem fieldTypes_of_not_isDefined (h : T.isDefined key = false) (ts : List Ty) : fieldTypes T key ≠ .ok ts := by
  intro hts
  unfold fieldTypes at hts
  split at hts
  · cases hts
  next d hd =>
  split at hts
  · cases hts
  next fields hfields =>
  rw [TypeTable.isDefined_iff.2 ⟨d, fields, hd, hfields⟩] at h
  cases h

theorem core_of_not_isArray (h : t.isArray = false) : t.core = t := by
  cases t <;> first | rfl | cases h

/-- Where no field is an array of aggregates, those among the types of fields lie in the aggregate. -/
theorem embeds_of_fieldTypes (hnone : ¬ T.HoldsArray) (hts : fieldTypes T key = .ok ts) (ht : t ∈ ts)
    {inner : String} (hinner : t.core.key? = some inner) : T.Embeds key inner := by
  unfold fieldTypes at hts
  split at hts
  · cases hts
  next d hd =>
  split at hts
  · cases hts
  next fields hfields =>
  obtain rfl := Except.ok.inj hts
  obtain ⟨f, hf, rfl⟩ := List.mem_map.1 ht
  have hsingle : f.ty.isArray = false := Bool.eq_false_iff.2 fun harray =>
    hnone ⟨key, d, fields, hd, hfields, f, hf, harray, Option.isSome_of_eq_some hinner⟩
  exact ⟨d, fields, hd, hfields, f, hf, core_of_not_isArray hsingle ▸ hinner⟩

theorem alignWith_ends {aggregate : String → Except LayoutError Nat}
    (h : ∀ key, t.core.key? = some key → Ends (aggregate key)) : Ends (L.alignWith aggregate t) := by
  induction t using alignWith.induct with
  | case1 t _ ih => exact ih h
  | case2 key => exact h key rfl
  | case3 key => exact h key rfl
  | case4 t harray hstruct hunion =>
    rw [alignWith]
    · intro key herror
      cases hsize : L.scalarSize t with
      | ok n => simp [hsize, Except.map] at herror
      | error e =>
        rw [hsize] at herror
        exact Ends.scalarSize L t key (by rw [hsize]; cases herror; rfl)
    all_goals assumption

theorem alignAll_ends {align : Ty → Except LayoutError Nat} (h : ∀ t ∈ ts, Ends (align t)) (most : Nat) :
    Ends (alignAll align ts most) := by
  induction ts generalizing most with
  | nil => exact .ok most
  | cons t ts ih =>
    exact (h t List.mem_cons_self).bind fun a _ => ih (fun t ht => h t (List.mem_cons_of_mem _ ht)) _

theorem sizeWith_ends {aggregate : Ty → Except LayoutError Nat}
    (h : ∀ t' key, t'.key? = some key → t.core.key? = some key → Ends (aggregate t')) :
    Ends (L.sizeWith aggregate t) := by
  induction t using sizeWith.induct with
  | case1 t length ih => exact (ih h).bind fun n _ => .checked _
  | case2 key => exact h _ key rfl rfl
  | case3 key => exact h _ key rfl rfl
  | case4 t harray hstruct hunion =>
    rw [sizeWith]
    · exact .scalarSize L t
    all_goals assumption

section Layers

variable (hnone : ¬ T.HoldsArray)
include hnone

/-- As deep as there are layers, and one deeper, the search for an alignment is not cut off. -/
theorem aggregateAlign_ends (h : T.Layered order) {d : Nat} (hd : order.length < d)
    (hkey : T.isDefined key = true → key ∈ order) : Ends (L.aggregateAlign T d key) := by
  induction h generalizing d key with
  | nil =>
    obtain ⟨d, rfl⟩ := Nat.exists_eq_succ_of_ne_zero (Nat.ne_zero_of_lt hd)
    have hblank : T.isDefined key = false := Bool.eq_false_iff.2 fun hdefined => List.not_mem_nil (hkey hdefined)
    exact (Ends.fieldTypes T key).bind fun ts hts => absurd hts (fieldTypes_of_not_isDefined hblank ts)
  | @cons latest rest hrest hnew hinner ih =>
    obtain ⟨d, rfl⟩ := Nat.exists_eq_succ_of_ne_zero (Nat.ne_zero_of_lt hd)
    by_cases heq : key = latest
    · subst heq
      refine (Ends.fieldTypes T key).bind fun ts hts => ?_
      split
      · exact .ok 1
      · refine alignAll_ends (fun t ht => alignWith_ends fun inner hin => ?_) 1
        have hbelow : inner ∈ rest := hinner inner (embeds_of_fieldTypes hnone hts ht hin)
        exact ih (Nat.lt_of_succ_lt_succ hd) fun _ => hbelow
    · exact ih (Nat.lt_of_succ_lt hd) fun hdefined => (List.mem_cons.1 (hkey hdefined)).resolve_left heq

end Layers

/-- There are fewer layers than aggregates may lie in each other. -/
theorem length_lt_depth (h : T.Layered order) (horder : ∀ key ∈ order, T.isDefined key = true) :
    order.length < depth T := by
  have hsub : order ⊆ T.keys := fun key hkey => TypeTable.mem_keys_of_isDefined (horder key hkey)
  have hlength := (h.nodup.subperm hsub).length_le
  simp only [TypeTable.keys, List.length_map, Array.length_toList] at hlength
  exact Nat.lt_succ_of_le hlength

section Searches

variable (hnone : ¬ T.HoldsArray) (hT : T.IsLayered)
include hnone hT

theorem alignOf_ends (t : Ty) : Ends (L.alignOf T t) := by
  obtain ⟨order, hlayers, horder⟩ := hT
  have hdepth := length_lt_depth hlayers fun key hkey => (horder key).1 hkey
  exact alignWith_ends fun key _ => aggregateAlign_ends hnone hlayers hdepth (horder key).2

theorem alignTo_ends (offset : Nat) (t : Ty) : Ends (L.alignTo T offset t) := by
  change Ends (if L.packed then _ else _)
  split
  · exact .ok offset
  · exact (alignOf_ends hnone hT t).bind fun _ _ => .roundUp _ _

theorem fieldsEnd_ends {size : Ty → Except LayoutError Nat} (h : ∀ t ∈ ts, Ends (size t)) (t : Ty) :
    Ends (L.fieldsEnd T size ts t) := by
  have hstruct : ∀ ts offset, (∀ t ∈ ts, Ends (size t)) → Ends (L.structEnd T size ts offset) := by
    intro ts
    induction ts with
    | nil => exact fun offset _ => .ok offset
    | cons t ts ih =>
      intro offset h
      refine (alignTo_ends hnone hT offset t).bind fun _ _ => (h t List.mem_cons_self).bind fun _ _ => ?_
      exact (Ends.checked _).bind fun _ _ => ih _ fun t ht => h t (List.mem_cons_of_mem _ ht)
  have hunion : ∀ ts most, (∀ t ∈ ts, Ends (size t)) → Ends (unionEnd size ts most) := by
    intro ts
    induction ts with
    | nil => exact fun most _ => .ok most
    | cons t ts ih =>
      exact fun most h => (h t List.mem_cons_self).bind fun _ _ => ih _ fun t ht => h t (List.mem_cons_of_mem _ ht)
  cases t with
  | union key => exact hunion ts 0 h
  | _ => exact hstruct ts 0 h

theorem aggregateSize_ends {d : Nat} (h : T.Layered order) (hd : order.length < d)
    (hkey : t.key? = some key) (hmem : T.isDefined key = true → key ∈ order) : Ends (L.aggregateSize T d t) := by
  induction h generalizing d t key with
  | nil =>
    obtain ⟨d, rfl⟩ := Nat.exists_eq_succ_of_ne_zero (Nat.ne_zero_of_lt hd)
    have hblank : T.isDefined key = false := Bool.eq_false_iff.2 fun hdefined => List.not_mem_nil (hmem hdefined)
    rw [aggregateSize_succ, hkey]
    exact (Ends.fieldTypes T key).bind fun ts hts => absurd hts (fieldTypes_of_not_isDefined hblank ts)
  | @cons latest rest hrest hnew hinner ih =>
    obtain ⟨d, rfl⟩ := Nat.exists_eq_succ_of_ne_zero (Nat.ne_zero_of_lt hd)
    by_cases heq : key = latest
    · subst heq
      rw [aggregateSize_succ, hkey]
      refine (Ends.fieldTypes T key).bind fun ts hts => ?_
      refine (fieldsEnd_ends hnone hT (fun u hu => sizeWith_ends fun u' inner hu' hin => ?_) t).bind fun _ _ =>
        alignTo_ends hnone hT _ t
      have hbelow : inner ∈ rest := hinner inner (embeds_of_fieldTypes hnone hts hu hin)
      exact ih (Nat.lt_of_succ_lt_succ hd) hu' fun _ => hbelow
    · exact ih (Nat.lt_of_succ_lt hd) hkey fun hdefined => (List.mem_cons.1 (hmem hdefined)).resolve_left heq

theorem sizeOf_ends (t : Ty) : Ends (L.sizeOf T t) := by
  obtain ⟨order, hlayers, horder⟩ := hT
  have hdepth := length_lt_depth hlayers fun key hkey => (horder key).1 hkey
  exact sizeWith_ends fun t' key ht' _ =>
    aggregateSize_ends hnone ⟨order, hlayers, horder⟩ hlayers hdepth ht' (horder key).2

theorem fieldOffset_ends (t : Ty) (index : Nat) : Ends (L.fieldOffset T t index) := by
  have hamong : ∀ ts index offset, Ends (L.offsetAmong T ts index offset) := by
    intro ts
    induction ts with
    | nil => exact fun _ offset => .ok offset
    | cons t ts ih =>
      intro index offset
      refine (alignTo_ends hnone hT offset t).bind fun start _ => ?_
      cases index with
      | zero => exact .ok start
      | succ i => exact (sizeOf_ends hnone hT t).bind fun _ _ => (Ends.checked _).bind fun _ _ => ih _ _
  cases t with
  | union key =>
    intro k herror
    cases hts : fieldTypes T key with
    | ok ts => simp [fieldOffset, hts, Except.map] at herror
    | error e =>
      simp only [fieldOffset, hts, Except.map] at herror
      exact Ends.fieldTypes T key k (by rw [hts]; cases herror; rfl)
  | struct key => exact (Ends.fieldTypes T key).bind fun ts _ => hamong ts index 0
  | _ => exact .ok 0

end Searches

/-- **Only arrays make a search endless.** Where an aggregate is only given fields whose aggregates have theirs, a
size, an alignment or an offset is found, or it is known why there is none, unless a field is an array of
aggregates. -/
theorem exists_array_of_recursive (hT : T.IsLayered)
    (h : L.sizeOf T t = .error (.recursive key) ∨ L.alignOf T t = .error (.recursive key) ∨
      ∃ index, L.fieldOffset T t index = .error (.recursive key)) : T.HoldsArray := by
  by_contra hnone
  rcases h with h | h | ⟨index, h⟩
  · exact sizeOf_ends hnone hT t key h
  · exact alignOf_ends hnone hT t key h
  · exact fieldOffset_ends hnone hT t index key h

end Layout

end TreeFlow
