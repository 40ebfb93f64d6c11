import TreeFlow.Tree.Format

/-!
# Records with members left out

A tree is written with every field, but a shorter form is read as well. `trim` makes one: of the members that may be
left out (`mayMiss`) it leaves out any choice, given by the steps that lead to them (`Omissions`). The fields of what
it makes of a record are known from the members of the record (`fields?_trimMembers`), and with that each way to
read a field comes down to reading the member's own value, or its default (`required_keptFields`,
`optional_keptFields`, `withDefault_keptFields`).
-/

namespace TreeFlow.Format

/-! ### Places in a value -/

/-- A step into a value. -/
inductive Step where
  | item (i : Nat)
  | member (name : String)
  deriving DecidableEq, Repr

/-- A choice of members in a value, each given by the steps that lead to it. -/
def Omissions := List Step → Bool

namespace Omissions

/-- Is the member chosen? -/
def has (gone : Omissions) (name : String) : Bool := gone [.member name]

/-- What is chosen in an item. -/
def item (gone : Omissions) (i : Nat) : Omissions := fun path => gone (.item i :: path)

/-- What is chosen in the value of a member. -/
def member (gone : Omissions) (name : String) : Omissions := fun path => gone (.member name :: path)

/-- Nothing is chosen. -/
def nothing : Omissions := fun _ => false

@[simp]
theorem nothing_has (name : String) : nothing.has name = false := rfl

@[simp]
theorem nothing_item (i : Nat) : nothing.item i = nothing := rfl

@[simp]
theorem nothing_member (name : String) : nothing.member name = nothing := rfl

end Omissions

/-! ### Trimming -/

/-- The fields of records that hold a value or null. -/
def optionalNames : List String := ["name", "fields", "declarator", "body", "otherwise", "init", "cond", "step"]

/-- May the member of a record inside a tree be left out? The storage class may, and so may an optional field without
a value. -/
def mayMiss (name : String) (x : Json) : Bool := name == "storage" || (optionalNames.contains name && x.isNull)

mutual
/-- The value without the chosen members, as far as they may be left out. -/
def trim (gone : Omissions) : Json → Json
  | .list items => .list (trimItems gone 0 items)
  | .object members => .object (trimMembers mayMiss gone members)
  | x => x

/-- The items from the `i`th one on, each trimmed. -/
def trimItems (gone : Omissions) (i : Nat) : List Json → List Json
  | [] => []
  | x :: rest => trim (gone.item i) x :: trimItems gone (i + 1) rest

/-- The members without the chosen ones, as far as `may` allows it, each trimmed. -/
def trimMembers (may : String → Json → Bool) (gone : Omissions) : List (String × Json) → List (String × Json)
  | [] => []
  | (name, x) :: rest =>
    if may name x && gone.has name then trimMembers may gone rest
    else (name, trim (gone.member name) x) :: trimMembers may gone rest
end

/-- The tree, written, without the chosen members. Of the fields of the tree itself each one may be left out. -/
def trimTree (gone : Omissions) : Json → Json
  | .object members => .object (trimMembers (fun _ _ => true) gone members)
  | x => x

@[simp]
theorem trim_object (gone : Omissions) (members : List (String × Json)) :
    trim gone (.object members) = .object (trimMembers mayMiss gone members) := by
  rw [trim]

section Nothing

mutual
theorem trim_nothing : ∀ x, trim .nothing x = x
  | .list items => congrArg Json.list (trimItems_nothing 0 items)
  | .object members => congrArg Json.object (trimMembers_nothing mayMiss members)
  | .null | .bool _ | .int _ | .float _ | .text _ | .scalar _ | .record _ | .unreadable => rfl

theorem trimItems_nothing (i : Nat) : ∀ items, trimItems .nothing i items = items
  | [] => rfl
  | x :: rest => by
    rw [trimItems, Omissions.nothing_item, trim_nothing x, trimItems_nothing (i + 1) rest]

theorem trimMembers_nothing (may : String → Json → Bool) : ∀ members, trimMembers may .nothing members = members
  | [] => rfl
  | (name, x) :: rest => by
    rw [trimMembers, Omissions.nothing_has, Bool.and_false, if_neg Bool.false_ne_true, Omissions.nothing_member,
      trim_nothing x, trimMembers_nothing may rest]
end

theorem trimTree_nothing (x : Json) : trimTree .nothing x = x := by
  cases x with
  | object members => exact congrArg Json.object (trimMembers_nothing _ members)
  | _ => rfl

end Nothing

/-! ### The members that are left -/

section Members

variable {may : String → Json → Bool} {gone : Omissions} {members : List (String × Json)}

/-- What is left of a member. -/
def kept (may : String → Json → Bool) (gone : Omissions) (name : String) (x : Json) : Option Json :=
  if may name x && gone.has name then none else some (trim (gone.member name) x)

theorem names_trimMembers_sublist :
    (trimMembers may gone members).map Prod.fst |>.Sublist (members.map Prod.fst) := by
  induction members with
  | nil => exact .slnil
  | cons m rest ih =>
    rw [trimMembers]
    split
    · exact ih.cons _
    · exact ih.cons_cons _

/-- Where all names are different, what is left under a name is what is left of the member of that name. -/
theorem lookup_trimMembers (hnames : (members.map Prod.fst).Nodup) (name : String) :
    (trimMembers may gone members).lookup name = (members.lookup name).bind (kept may gone name) := by
  induction members with
  | nil => rfl
  | cons m rest ih =>
    obtain ⟨other, x⟩ := m
    obtain ⟨hother, hrest⟩ := List.nodup_cons.1 hnames
    rw [trimMembers]
    by_cases hname : name = other
    · subst hname
      have hlater : rest.lookup name = none := List.lookup_eq_none_iff.2 fun m hm =>
        bne_iff_ne.2 fun h => hother (List.mem_map.2 ⟨m, hm, h.symm⟩)
      rw [List.lookup_cons_self, Option.bind_some, kept]
      split
      · rw [ih hrest, hlater, Option.bind_none]
      · rw [List.lookup_cons_self]
    · have hskip : (name == other) = false := beq_eq_false_iff_ne.2 hname
      rw [List.lookup_cons, hskip]
      split
      · exact ih hrest
      · rw [List.lookup_cons, hskip]
        exact ih hrest

theorem noneRepeated_of_nodup (hnames : (members.map Prod.fst).Nodup) (names : List String) :
    noneRepeated names members = true := by
  refine List.all_eq_true.2 fun name _ => decide_eq_true ?_
  calc (members.filter fun m => m.1 = name).length
      = (members.map Prod.fst).count name := by
        rw [← List.countP_eq_length_filter, List.count, List.countP_map]
        rfl
    _ ≤ 1 := List.nodup_iff_count.1 hnames name

/-- The fields that are left of a record with the given members. -/
def keptFields (may : String → Json → Bool) (gone : Omissions) (members : List (String × Json)) : Fields where
  get? name := (members.lookup name).bind (kept may gone name)
  positional := false

/-- **A trimmed record has the fields that are left.** -/
theorem fields?_trimMembers (names : List String) (hnames : (members.map Prod.fst).Nodup) :
    fields? names (.object (trimMembers may gone members)) = some (keptFields may gone members) := by
  have hkept : ((trimMembers may gone members).map Prod.fst).Nodup := names_trimMembers_sublist.nodup hnames
  rw [fields?, if_pos (noneRepeated_of_nodup hkept names)]
  congr 2
  funext name
  exact lookup_trimMembers hnames name

theorem bind_fields?_trimMembers (names : List String) (hnames : (members.map Prod.fst).Nodup)
    (next : Fields → Option α) :
    (fields? names (.object (trimMembers may gone members))).bind next = next (keptFields may gone members) := by
  rw [fields?_trimMembers names hnames, Option.bind_some]

theorem bind_originFields?_trimMembers (o : Origin) (names : List String) (hnames : (members.map Prod.fst).Nodup)
    (next : Fields → Option α) :
    (o.fields? names (.object (trimMembers may gone members))).bind next = next (keptFields may gone members) := by
  rw [Origin.fields?, if_neg fun h => Bool.false_ne_true h.2, bind_fields?_trimMembers names hnames]

/-- The value of the member of the given name. -/
def valueOf (members : List (String × Json)) (name : String) : Json := (members.lookup name).getD .null

@[simp]
theorem valueOf_cons_self {name : String} {x : Json} : valueOf ((name, x) :: members) name = x := by
  rw [valueOf, List.lookup_cons_self, Option.getD_some]

theorem valueOf_cons_of_ne {name other : String} {x : Json} (hname : name ≠ other) :
    valueOf ((other, x) :: members) name = valueOf members name := by
  rw [valueOf, List.lookup_cons, beq_eq_false_iff_ne.2 hname, valueOf]

theorem lookup_eq_some_valueOf {name : String} (hname : name ∈ members.map Prod.fst) :
    members.lookup name = some (valueOf members name) := by
  cases hlookup : members.lookup name with
  | none =>
    obtain ⟨m, hm, rfl⟩ := List.mem_map.1 hname
    exact absurd rfl (bne_iff_ne.1 (List.lookup_eq_none_iff.1 hlookup m hm))
  | some x => rw [valueOf, hlookup, Option.getD_some]

theorem get?_keptFields {name : String} (hname : name ∈ members.map Prod.fst) :
    (keptFields may gone members).get? name = kept may gone name (valueOf members name) :=
  congrArg (Option.bind · (kept may gone name)) (lookup_eq_some_valueOf hname)

section Reading

variable {name : String} {read : Json → Option α} (hname : name ∈ members.map Prod.fst)
include hname

theorem required_keptFields :
    (keptFields may gone members).required name read =
      if may name (valueOf members name) && gone.has name then none
      else read (trim (gone.member name) (valueOf members name)) := by
  rw [Fields.required, get?_keptFields hname, kept]
  cases may name (valueOf members name) && gone.has name <;> rfl

theorem optional_keptFields :
    (keptFields may gone members).optional name read =
      if may name (valueOf members name) && gone.has name then some none
      else nullable? read (trim (gone.member name) (valueOf members name)) := by
  rw [Fields.optional, get?_keptFields hname, kept]
  cases may name (valueOf members name) && gone.has name <;> rfl

theorem withDefault_keptFields {default : α} :
    (keptFields may gone members).withDefault name default read =
      if may name (valueOf members name) && gone.has name then some default
      else read (trim (gone.member name) (valueOf members name)) := by
  rw [Fields.withDefault, get?_keptFields hname, kept]
  cases may name (valueOf members name) && gone.has name <;> rfl

end Reading

end Members

end TreeFlow.Format
