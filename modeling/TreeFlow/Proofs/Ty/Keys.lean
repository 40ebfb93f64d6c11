import TreeFlow.Proofs.Graph.Aggregates

/-!
# The aggregate table over time

A table is only ever asked to declare an aggregate or to give one its fields (`TypeTable.Action`). Tags are
arbitrary, and one that looks like a numbered key may take the key that another aggregate would have got. Still
the search for a free one ends (`TypeTable.exists_freshKey_eq`), so all keys are different. Then a key stands for one
entry, the position that the entry had when it was declared is the position to look at (`TypeTable.IndexedBy`), and
an entry that has its fields is found as it is at any later time (`TypeTable.consistent_run`).
-/

namespace TreeFlow

namespace TypeTable

variable {t u : TypeTable} {key base : String}

/-! ### Candidates -/

/-- The keys that are tried for `base`, one after the other. -/
def candidate (base : String) : Nat → String
  | 0 => base
  | n + 1 => s!"{base}.{n}"

/-- **A fresh key is the first candidate that is not taken.** -/
theorem exists_freshKey_eq (t : TypeTable) (base : String) :
    ∃ n, t.freshKey base = candidate base n ∧ candidate base n ∉ t.keys ∧
      ∀ m < n, candidate base m ∈ t.keys := by
  have hfirst : ∃ n, t.freshKey base = candidate base n ∧ ∀ m < n, candidate base m ∈ t.keys := by
    by_cases htaken : t.contains base = true
    · obtain ⟨i, -, hkey, hbefore, -⟩ := exists_numberedKey_eq t base t.entries.size 0
      refine ⟨i + 1, by rw [freshKey, if_pos htaken, hkey, Nat.zero_add, candidate], fun m hm => ?_⟩
      cases m with
      | zero => exact contains_iff.1 htaken
      | succ m => exact Nat.zero_add m ▸ hbefore m (Nat.lt_of_succ_lt_succ hm)
    · exact ⟨0, if_neg htaken, fun m hm => absurd hm (Nat.not_lt_zero m)⟩
  obtain ⟨n, hkey, hbefore⟩ := hfirst
  exact ⟨n, hkey, hkey ▸ freshKey_not_mem t base, hbefore⟩

/-! ### Keys and positions -/

theorem getElem?_keys (t : TypeTable) (i : Nat) : t.keys[i]? = t.entries[i]?.map (·.key) := by
  simp [keys]

theorem getElem?_keys_eq_some_iff {i : Nat} :
    t.keys[i]? = some key ↔ ∃ d, t.entries[i]? = some d ∧ d.key = key := by
  rw [getElem?_keys, Option.map_eq_some_iff]

/-- With different keys, no search goes by the entry that is meant. -/
theorem find?_eq_some_iff (h : t.keys.Nodup) {d : AggregateDef} :
    t.find? key = some d ↔ ∃ i : Nat, t.entries[i]? = some d ∧ d.key = key := by
  constructor
  · intro hd
    obtain ⟨hkey, i, hi, rfl, -⟩ := Array.find?_eq_some_iff_getElem.1 hd
    exact ⟨i, Array.getElem?_eq_getElem hi, by simpa using hkey⟩
  · rintro ⟨i, hd, rfl⟩
    obtain ⟨hi, rfl⟩ := Array.getElem?_eq_some_iff.1 hd
    refine Array.find?_eq_some_iff_getElem.2 ⟨by simp, i, hi, rfl, fun j hj => ?_⟩
    have hlt : j < t.keys.length := by
      rw [keys, List.length_map, Array.length_toList]
      exact Nat.lt_trans hj hi
    have hne : t.keys[j]? ≠ t.keys[i]? := fun heq => Nat.ne_of_lt hj ((List.getElem?_inj hlt h).1 heq)
    simpa [getElem?_keys, hi, Nat.lt_trans hj hi] using hne

/-- Where all names are different, what is found under a name is what stands there with it. -/
theorem lookup_eq_some_iff_mem {α : Type} {l : List (String × α)} (h : (l.map Prod.fst).Nodup) {a : α} :
    l.lookup key = some a ↔ (key, a) ∈ l := by
  induction l with
  | nil => simp
  | cons p l ih =>
    obtain ⟨name, b⟩ := p
    obtain ⟨hfirst, hrest⟩ := List.nodup_cons.1 h
    by_cases hkey : key = name
    · subst hkey
      have hnot : (key, a) ∉ l := fun hmem => hfirst (List.mem_map.2 ⟨(key, a), hmem, rfl⟩)
      simp [hnot, eq_comm]
    · have hskip : (key == name) = false := by simpa using hkey
      rw [List.lookup_cons, hskip]
      simpa [hkey] using ih hrest

/-- What is found in a list under its own elements is where they stand. -/
theorem lookup_zipIdx_eq_some_iff {l : List String} (h : l.Nodup) {i : Nat} :
    l.zipIdx.lookup key = some i ↔ l[i]? = some key := by
  rw [lookup_eq_some_iff_mem (by rwa [List.zipIdx_map_fst]), List.mem_zipIdx_iff_getElem?]

/-- **A table and an index of it are in step**: the index has one place for every entry, and what is looked up in
the table is what stands at that place. -/
structure IndexedBy (t : TypeTable) (index : List (String × Nat)) : Prop where
  distinct : t.keys.Nodup
  places : index = t.keys.zipIdx
  place : ∀ key i, index.lookup key = some i ↔ ∃ d, t.entries[i]? = some d ∧ d.key = key
  find : ∀ key, t.find? key = (index.lookup key).bind (t.entries[·]?)

theorem indexedBy_of_nodup (h : t.keys.Nodup) : t.IndexedBy t.keys.zipIdx := by
  have hplace : ∀ key i, t.keys.zipIdx.lookup key = some i ↔ ∃ d, t.entries[i]? = some d ∧ d.key = key :=
    fun key i => (lookup_zipIdx_eq_some_iff h).trans getElem?_keys_eq_some_iff
  refine ⟨h, rfl, hplace, fun key => ?_⟩
  ext d
  rw [find?_eq_some_iff h, Option.bind_eq_some_iff]
  constructor
  · rintro ⟨i, hd, hkey⟩
    exact ⟨i, (hplace key i).2 ⟨d, hd, hkey⟩, hd⟩
  · rintro ⟨i, hi, hd⟩
    obtain ⟨e, he, hkey⟩ := (hplace key i).1 hi
    obtain rfl : e = d := Option.some.inj (he.symm.trans hd)
    exact ⟨i, hd, hkey⟩

/-! ### Actions -/

/-- What can be asked of a table. -/
inductive Action where
  | declare (kind : AggregateKind) (name : String)
  | define (key : String) (fields : List Field)

namespace Action

/-- The table after an action. One that is refused changes nothing. -/
def perform : Action → TypeTable → TypeTable
  | declare kind name, t => (t.declare kind name).2
  | define key fields, t => (t.define key fields).toOption.getD t

/-- What is put into an index: the key that an aggregate gets, and the position of its entry. -/
def registers : Action → TypeTable → List (String × Nat)
  | declare kind name, t => [(t.freshKey s!"{kind.text}.{name}", t.entries.size)]
  | define .., _ => []

end Action

/-- A table after some actions. -/
def run (t : TypeTable) (acts : List Action) : TypeTable := acts.foldl (fun t a => a.perform t) t

/-- The index that is built while actions are carried out. -/
def index : List Action → TypeTable → List (String × Nat)
  | [], _ => []
  | a :: rest, t => a.registers t ++ index rest (a.perform t)

/-! ### One action -/

/-- **What declaring does**: the first candidate that is not taken becomes the key of a new entry. -/
theorem exists_declare_eq (t : TypeTable) (kind : AggregateKind) (name : String) :
    ∃ n, let key := candidate s!"{kind.text}.{name}" n
      key ∉ t.keys ∧ (∀ m < n, candidate s!"{kind.text}.{name}" m ∈ t.keys) ∧
        t.declare kind name = (kind.ty key, ⟨t.entries.push ⟨key, name, kind, none⟩⟩) := by
  obtain ⟨n, hkey, hfree, hbefore⟩ := exists_freshKey_eq t s!"{kind.text}.{name}"
  exact ⟨n, hfree, hbefore, by rw [declare, hkey]⟩

/-- **What defining does.** -/
inductive Defines (t : TypeTable) (key : String) (fields : List Field) : Except Fault TypeTable → Prop
  /-- The entry with the key gets the fields that it did not have, and nothing else is changed. -/
  | done {i : Nat} {d : AggregateDef} (hd : t.entries[i]? = some d) (hkey : d.key = key) (hnone : d.fields = none) :
      Defines t key fields (.ok ⟨t.entries.set! i { d with fields := some fields }⟩)
  | undeclared (hkey : key ∉ t.keys) : Defines t key fields (.error (.undeclared key))
  | redefined (hkey : t.isDefined key = true) : Defines t key fields (.error (.redefined key))

theorem defines_define (t : TypeTable) (key : String) (fields : List Field) :
    t.Defines key fields (t.define key fields) := by
  rw [define]
  split
  · next hnone =>
    refine .undeclared fun hmem => ?_
    obtain ⟨d, hd, hkey⟩ := List.mem_map.1 hmem
    have hother := Array.findIdx?_eq_none_iff.1 hnone d (Array.mem_toList_iff.1 hd)
    simp [hkey] at hother
  · next i hindex =>
    obtain ⟨hi, hkey, hbefore⟩ := Array.findIdx?_eq_some_iff_getElem.1 hindex
    have hentry : t.entries[i]? = some t.entries[i] := Array.getElem?_eq_getElem hi
    split
    · next key' name kind hd =>
      have hsame : t.entries[i] = ⟨key', name, kind, none⟩ := Option.some.inj (hentry.symm.trans hd)
      exact .done hd (by simpa [hsame] using hkey) rfl
    · next hsome =>
      have hfind : t.find? key = some t.entries[i] :=
        Array.find?_eq_some_iff_getElem.2 ⟨hkey, i, hi, rfl, by simpa using hbefore⟩
      refine .redefined ?_
      cases hfields : t.entries[i].fields with
      | some fields => simp [isDefined, hfind, hfields]
      | none =>
        refine absurd ?_ (hsome t.entries[i].key t.entries[i].name t.entries[i].kind)
        rw [hentry, ← hfields]

theorem keys_set {i : Nat} {d : AggregateDef} (hd : t.entries[i]? = some d) (fields : List Field) :
    (⟨t.entries.set! i { d with fields := some fields }⟩ : TypeTable).keys = t.keys := by
  obtain ⟨hi, rfl⟩ := Array.getElem?_eq_some_iff.1 hd
  refine List.ext_getElem? fun j => ?_
  rw [getElem?_keys, getElem?_keys]
  by_cases hij : i = j
  · subst hij
    simp [hi]
  · simp [Array.getElem?_setIfInBounds_ne hij]

namespace Action

/-- An action registers the keys that it adds. -/
theorem keys_perform (a : Action) (t : TypeTable) :
    (a.perform t).keys = t.keys ++ (a.registers t).map Prod.fst := by
  cases a with
  | declare kind name => simp [perform, registers, TypeTable.declare, keys]
  | define key fields =>
    have hdefines := defines_define t key fields
    rw [perform, registers, List.map_nil, List.append_nil]
    generalize t.define key fields = result at hdefines
    cases hdefines with
    | done hd _ _ => exact keys_set hd fields
    | undeclared _ | redefined _ => rfl

theorem zipIdx_keys_perform (a : Action) (t : TypeTable) :
    (a.perform t).keys.zipIdx = t.keys.zipIdx ++ a.registers t := by
  rw [keys_perform, List.zipIdx_append]
  cases a with
  | declare kind name => simp [registers, keys]
  | define key fields => rfl

theorem nodup_perform (a : Action) (h : t.keys.Nodup) : (a.perform t).keys.Nodup := by
  rw [keys_perform]
  cases a with
  | declare kind name =>
    have hfresh := freshKey_not_mem t s!"{kind.text}.{name}"
    refine List.nodup_append.2 ⟨h, List.nodup_singleton _, fun key hkey other hother heq => hfresh ?_⟩
    have hnew : key = t.freshKey s!"{kind.text}.{name}" := heq.trans (List.mem_singleton.1 hother)
    exact hnew ▸ hkey
  | define key fields => simpa [registers] using h

theorem extends_perform (a : Action) (t : TypeTable) : t.Extends (a.perform t) := by
  cases a with
  | declare kind name => exact extends_declare t kind name
  | define key fields =>
    rw [perform]
    cases hdefine : t.define key fields with
    | error fault => exact .refl t
    | ok u => exact extends_define hdefine

end Action

/-! ### Histories -/

theorem extends_run (t : TypeTable) (acts : List Action) : t.Extends (t.run acts) := by
  induction acts generalizing t with
  | nil => exact .refl t
  | cons a rest ih => exact (a.extends_perform t).trans (ih _)

theorem nodup_run (h : t.keys.Nodup) (acts : List Action) : (t.run acts).keys.Nodup := by
  induction acts generalizing t with
  | nil => exact h
  | cons a rest ih => exact ih (a.nodup_perform h)

/-- The index grows as the table does. -/
theorem zipIdx_keys_run (t : TypeTable) (acts : List Action) :
    (t.run acts).keys.zipIdx = t.keys.zipIdx ++ index acts t := by
  induction acts generalizing t with
  | nil => exact (List.append_nil _).symm
  | cons a rest ih =>
    show ((a.perform t).run rest).keys.zipIdx = _
    rw [ih, a.zipIdx_keys_perform, List.append_assoc]
    rfl

/-- What an entry has when its fields are known it has for good. -/
theorem find?_run (t : TypeTable) (acts : List Action) {d : AggregateDef} (hd : t.find? key = some d)
    (hfields : d.fields.isSome) : (t.run acts).find? key = some d := by
  obtain ⟨e, he, rfl | ⟨hnone, -⟩⟩ := (extends_run t acts).find? hd
  · exact he
  · simp [hnone] at hfields

/-- **What holds of a table at all times**, with the index that was built up to then. -/
structure IsConsistent (t : TypeTable) (index : List (String × Nat)) : Prop where
  /-- The index is in step with the entries, and no two of them have one key. -/
  indexed : t.IndexedBy index
  /-- To declare an aggregate is always possible, under a key that was not used before. -/
  declares : ∀ (kind : AggregateKind) (name : String), ∃ n,
    let key := candidate s!"{kind.text}.{name}" n
    key ∉ t.keys ∧ (∀ m < n, candidate s!"{kind.text}.{name}" m ∈ t.keys) ∧
      t.declare kind name = (kind.ty key, ⟨t.entries.push ⟨key, name, kind, none⟩⟩)
  defines : ∀ key fields, t.Defines key fields (t.define key fields)
  refused : ∀ key fields fault, t.define key fields = .error fault → (Action.define key fields).perform t = t
  /-- Every entry stays where it is, with its key, its name and its kind, and with its fields once it has some. -/
  keeps : ∀ more, t.Extends (t.run more)
  /-- Fields that were given are what every later search for the key finds. -/
  lasts : ∀ key fields u, t.define key fields = .ok u →
    ∀ more, ∃ d, (u.run more).find? key = some d ∧ d.key = key ∧ d.fields = some fields

/-- **The table is consistent at all times**, whatever aggregates are declared and defined in whatever order. -/
theorem consistent_run (acts : List Action) :
    (({} : TypeTable).run acts).IsConsistent (index acts {}) := by
  have hnodup : (({} : TypeTable).run acts).keys.Nodup := nodup_run (t := {}) List.nodup_nil acts
  generalize ht : ({} : TypeTable).run acts = t at hnodup ⊢
  refine {
    indexed := ?_
    declares := exists_declare_eq t
    defines := defines_define t
    refused := fun key fields fault hfault => by rw [Action.perform, hfault]; rfl
    keeps := extends_run t
    lasts := fun key fields u hdefine more => ?_ }
  · have hindex : index acts {} = t.keys.zipIdx := by rw [← ht, zipIdx_keys_run]; rfl
    exact hindex ▸ indexedBy_of_nodup hnodup
  · obtain ⟨d, hfind, hkey, hfields⟩ := exists_find?_of_define hdefine
    exact ⟨d, find?_run u more hfind (Option.isSome_of_eq_some hfields), hkey, hfields⟩

/-- The tag of the second struct is the key that the third one would have got. -/
example : (({} : TypeTable).run [.declare .struct "P", .declare .struct "P.0", .declare .struct "P"]).keys =
    ["struct.P", "struct.P.0", "struct.P.1"] := by decide

end TypeTable

end TreeFlow
