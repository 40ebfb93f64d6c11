import TreeFlow.Proofs.Lowering.Resembling
import TreeFlow.Proofs.Lowering.Termination

/-!
# Chains of declarators mean the same however they are grouped

A pointer node stands for some stars, an array node for some dimensions. How they are divided among nodes
has no meaning: taken apart, a chain is a list of links (`Tree.Spells`), and what it declares, and what is
reported on the way, depends on this list only, up to the lines of the nodes (`declare_regrouped`).

A walk over a chain of more nodes needs more depth, also for the dimensions and parameters at the end of it.
So the chains are compared where neither walk is cut off, each through the walk over the list of links
(`link_resembles_follow`, `exists_follow_resembles_link`).
-/

namespace TreeFlow

/-! ### Chains -/

/-- One link of a chain. Stars and dimensions are links each for itself. -/
inductive Link where
  | star
  | dimension (dim : Option ExprId)
  | function (params : List ParamDecl) (variadic : Bool)
  | init (value : ExprId)

/-- Does the link make a function? -/
def Link.isFunction : Link → Bool
  | .function .. => true
  | _ => false

namespace Tree

/-- The links of a chain, the outermost first, and the name at its centre. -/
inductive Spells (t : Tree) : DeclaratorId → List Link → Option String → Prop
  | identifier {id : DeclaratorId} {name : String} {line : UInt32}
      (hid : t.declarator? id = some ⟨.identifier name, line⟩) : Spells t id [] (some name)
  | anonymous {id : DeclaratorId} {line : UInt32} (hid : t.declarator? id = some ⟨.anonymous, line⟩) :
      Spells t id [] none
  | pointer {id inner : DeclaratorId} {depth line : UInt32} {links : List Link} {name : Option String}
      (hid : t.declarator? id = some ⟨.pointer inner depth, line⟩) (hinner : Spells t inner links name) :
      Spells t id (List.replicate depth.toNat .star ++ links) name
  | array {id inner : DeclaratorId} {dims : List (Option ExprId)} {line : UInt32} {links : List Link}
      {name : Option String} (hid : t.declarator? id = some ⟨.array inner dims, line⟩)
      (hinner : Spells t inner links name) : Spells t id (dims.reverse.map .dimension ++ links) name
  | function {id inner : DeclaratorId} {ps : List ParamDecl} {variadic : Bool} {line : UInt32}
      {links : List Link} {name : Option String}
      (hid : t.declarator? id = some ⟨.function inner ps variadic, line⟩)
      (hinner : Spells t inner links name) : Spells t id (.function ps variadic :: links) name
  | init {id inner : DeclaratorId} {value : ExprId} {line : UInt32} {links : List Link}
      {name : Option String} (hid : t.declarator? id = some ⟨.init inner value, line⟩)
      (hinner : Spells t inner links name) : Spells t id (.init value :: links) name

/-- A chain and the same chain with some of its nodes divided: a pointer of depth `m + n` into two of depths
`m` and `n`, or an array with dimensions `ds₁ ++ ds₂` into one with `ds₂` around one with `ds₁`. On which
lines the nodes are does not matter. -/
inductive Regroups (t : Tree) : DeclaratorId → DeclaratorId → Prop
  | identifier {id id' : DeclaratorId} {name : String} {line line' : UInt32}
      (hid : t.declarator? id = some ⟨.identifier name, line⟩)
      (hid' : t.declarator? id' = some ⟨.identifier name, line'⟩) : Regroups t id id'
  | anonymous {id id' : DeclaratorId} {line line' : UInt32}
      (hid : t.declarator? id = some ⟨.anonymous, line⟩)
      (hid' : t.declarator? id' = some ⟨.anonymous, line'⟩) : Regroups t id id'
  | pointer {id id' inner inner' : DeclaratorId} {depth line line' : UInt32}
      (hid : t.declarator? id = some ⟨.pointer inner depth, line⟩)
      (hid' : t.declarator? id' = some ⟨.pointer inner' depth, line'⟩) (hinner : Regroups t inner inner') :
      Regroups t id id'
  | array {id id' inner inner' : DeclaratorId} {dims : List (Option ExprId)} {line line' : UInt32}
      (hid : t.declarator? id = some ⟨.array inner dims, line⟩)
      (hid' : t.declarator? id' = some ⟨.array inner' dims, line'⟩) (hinner : Regroups t inner inner') :
      Regroups t id id'
  | function {id id' inner inner' : DeclaratorId} {ps : List ParamDecl} {variadic : Bool}
      {line line' : UInt32} (hid : t.declarator? id = some ⟨.function inner ps variadic, line⟩)
      (hid' : t.declarator? id' = some ⟨.function inner' ps variadic, line'⟩)
      (hinner : Regroups t inner inner') : Regroups t id id'
  | init {id id' inner inner' : DeclaratorId} {value : ExprId} {line line' : UInt32}
      (hid : t.declarator? id = some ⟨.init inner value, line⟩)
      (hid' : t.declarator? id' = some ⟨.init inner' value, line'⟩) (hinner : Regroups t inner inner') :
      Regroups t id id'
  | dividePointer {id id' mid inner inner' : DeclaratorId} {depth m n line line' line'' : UInt32}
      (hid : t.declarator? id = some ⟨.pointer inner depth, line⟩) (hdepth : depth.toNat = m.toNat + n.toNat)
      (hid' : t.declarator? id' = some ⟨.pointer mid m, line'⟩)
      (hmid : t.declarator? mid = some ⟨.pointer inner' n, line''⟩) (hinner : Regroups t inner inner') :
      Regroups t id id'
  | divideArray {id id' mid inner inner' : DeclaratorId} {ds₁ ds₂ : List (Option ExprId)}
      {line line' line'' : UInt32} (hid : t.declarator? id = some ⟨.array inner (ds₁ ++ ds₂), line⟩)
      (hid' : t.declarator? id' = some ⟨.array mid ds₂, line'⟩)
      (hmid : t.declarator? mid = some ⟨.array inner' ds₁, line''⟩) (hinner : Regroups t inner inner') :
      Regroups t id id'

variable {t : Tree} {id id' : DeclaratorId} {links : List Link} {name : Option String}

theorem Spells.exists_node (h : t.Spells id links name) : ∃ node, t.declarator? id = some node := by
  cases h <;> exact ⟨_, ‹_›⟩

/-- Every chain is a regrouping of itself. -/
theorem Spells.regroups (h : t.Spells id links name) : t.Regroups id id := by
  induction h with
  | identifier hid => exact .identifier hid hid
  | anonymous hid => exact .anonymous hid hid
  | pointer hid _ ih => exact .pointer hid hid ih
  | array hid _ ih => exact .array hid hid ih
  | function hid _ ih => exact .function hid hid ih
  | init hid _ ih => exact .init hid hid ih

/-- However a chain is grouped, it has the same links. -/
theorem Regroups.exists_spells (h : t.Regroups id id') :
    ∃ links name, t.Spells id links name ∧ t.Spells id' links name := by
  induction h with
  | identifier hid hid' => exact ⟨[], _, .identifier hid, .identifier hid'⟩
  | anonymous hid hid' => exact ⟨[], none, .anonymous hid, .anonymous hid'⟩
  | pointer hid hid' _ ih =>
    obtain ⟨links, name, h, h'⟩ := ih
    exact ⟨_, name, .pointer hid h, .pointer hid' h'⟩
  | array hid hid' _ ih =>
    obtain ⟨links, name, h, h'⟩ := ih
    exact ⟨_, name, .array hid h, .array hid' h'⟩
  | function hid hid' _ ih =>
    obtain ⟨links, name, h, h'⟩ := ih
    exact ⟨_, name, .function hid h, .function hid' h'⟩
  | init hid hid' _ ih =>
    obtain ⟨links, name, h, h'⟩ := ih
    exact ⟨_, name, .init hid h, .init hid' h'⟩
  | dividePointer hid hdepth hid' hmid _ ih =>
    obtain ⟨links, name, h, h'⟩ := ih
    refine ⟨_, name, .pointer hid h, ?_⟩
    rw [hdepth, ← List.replicate_append_replicate, List.append_assoc]
    exact .pointer hid' (.pointer hmid h')
  | divideArray hid hid' hmid _ ih =>
    obtain ⟨links, name, h, h'⟩ := ih
    refine ⟨_, name, .array hid h, ?_⟩
    rw [List.reverse_append, List.map_append, List.append_assoc]
    exact .array hid' (.array hmid h')

end Tree

namespace Lower

variable {α γ : Type} {env : Env} {id id' : DeclaratorId} {links : List Link} {name : Option String}
  {mode : DeclaratorMode}

/-! ### Walks over lists of links -/

/-- Adds a link to what the links outside of it came to. It has no line of its own. -/
def addLink (sub : Descent) (mode : DeclaratorMode) (info : DeclaratorInfo) : Link → Lower DeclaratorInfo
  | .star => return { info with ty := info.ty.pointerTo }
  | .dimension dim => do return { info with ty := ← addDimensions sub mode 0 [dim] info.ty }
  | .function ps variadic => do
    let ps ← params sub ps 0
    return { info with ty := .function info.ty (ps.map (·.ty)) variadic, params := some ps, variadic }
  | .init value => return { info with init := some value }

/-- Adds one link after another, and then the name. -/
def followLinks (sub : Descent) (mode : DeclaratorMode) (name : Option String) :
    List Link → DeclaratorInfo → Lower DeclaratorInfo
  | [], info => return { info with name := name.or info.name }
  | link :: links, info => do
    let info ← addLink sub mode info link
    followLinks sub mode name links info

section Follow

variable (sub : Descent) (info : DeclaratorInfo)

/-- Stars are added as one pointer of their depth. -/
theorem followLinks_stars (n : Nat) :
    followLinks sub mode name (List.replicate n .star ++ links) info =
      followLinks sub mode name links { info with ty := info.ty.pointers n } := by
  induction n generalizing info with
  | zero =>
    -- What is declared may have parameters of the same kind, so it is not its fields by definition.
    cases info
    rfl
  | succ n ih =>
    show (pure { info with ty := info.ty.pointerTo } >>= fun info => followLinks sub mode name _ info) = _
    exact ih { info with ty := info.ty.pointerTo }

theorem addDimensions_cons (line : Nat) (dim : Option ExprId) (dims : List (Option ExprId)) (ty : Ty) :
    addDimensions sub mode line (dim :: dims) ty =
      addDimensions sub mode line [dim] ty >>= addDimensions sub mode line dims := by
  simp only [addDimensions]
  split
  · rfl
  · rfl
  · rw [bind_bind]
    rfl

/-- Dimensions are added as those of one array. -/
theorem followLinks_dimensions (dims : List (Option ExprId)) :
    followLinks sub mode name (dims.map .dimension ++ links) info =
      addDimensions sub mode 0 dims info.ty >>= fun ty => followLinks sub mode name links { info with ty } := by
  induction dims generalizing info with
  | nil =>
    cases info
    rfl
  | cons dim dims ih =>
    rw [addDimensions_cons, bind_bind]
    show (addDimensions sub mode 0 [dim] info.ty >>= fun ty => pure { info with ty }) >>= _ = _
    rw [bind_bind]
    exact congrArg _ (funext fun ty => ih { info with ty })

theorem followLinks_function (ps : List ParamDecl) (variadic : Bool) :
    followLinks sub mode name (.function ps variadic :: links) info =
      params sub ps 0 >>= fun ps => followLinks sub mode name links
        { info with ty := .function info.ty (ps.map (·.ty)) variadic, params := some ps, variadic } :=
  bind_bind _ _ _

end Follow

/-! ### Chains and lists of links -/

section Chains

/-- A declarator that is there is looked at. -/
theorem declarator_bind {node : Declarator} {next : Declarator → Lower α}
    (hid : env.tree.declarator? id = some node) (s : State) : (declarator id >>= next) env s = next node env s := by
  show (present (.declarator id) (env.tree.declarator? id) >>= next) env s = _
  rw [hid]
  rfl

section Nodes

variable {node : Declarator} {next : Nat → Declarator → Lower DeclaratorInfo} {d d' : Nat} {info : DeclaratorInfo}
  {erase : DeclaratorInfo → γ} {m : Lower DeclaratorInfo} (hid : env.tree.declarator? id = some node)
  (hlink : ∀ e, (descentTo (e + 1)).link mode id info = declarator id >>= next e)
include hid hlink

theorem link_resembles (h : ∀ e, e < d → Resembles env erase (next e node) m) :
    Resembles env erase ((descentTo d).link mode id info) m := by
  cases d with
  | zero => exact .of_endless fun _ => rfl
  | succ e =>
    intro s s' hs
    rw [hlink, declarator_bind hid]
    exact h e e.lt_succ_self s s' hs

theorem resembles_link {k : Nat} (hd : d + (k + 1) ≤ d')
    (h : ∀ e, d + k ≤ e → Resembles env erase m (next e node)) :
    Resembles env erase m ((descentTo d').link mode id info) := by
  obtain ⟨e, rfl⟩ : ∃ e, d' = e + 1 := ⟨d' - 1, by omega⟩
  intro s s' hs
  rw [hlink, declarator_bind hid]
  exact h e (Nat.le_of_succ_le_succ hd) s s' hs

end Nodes

variable {d d' : Nat} {info info' : DeclaratorInfo}

/-- The walk over a chain does what the walk over its links does. -/
theorem link_resembles_follow (h : env.tree.Spells id links name) (hd : d ≤ d')
    (hinfo : info.unlined = info'.unlined) :
    Resembles env DeclaratorInfo.unlined ((descentTo d).link mode id info)
      (followLinks (descentTo d') mode name links info') := by
  induction h generalizing d info info' with
  | identifier hid =>
    refine link_resembles hid (fun _ => rfl) fun e _ => .pure ?_
    simp_all [DeclaratorInfo.unlined_eq_iff]
  | anonymous hid =>
    refine link_resembles hid (fun _ => rfl) fun e _ => .pure ?_
    simp_all [DeclaratorInfo.unlined_eq_iff]
  | pointer hid _ ih =>
    refine link_resembles hid (fun _ => rfl) fun e he => ?_
    rw [followLinks_stars]
    refine ih (by omega) ?_
    simp_all [DeclaratorInfo.unlined_eq_iff]
  | array hid _ ih =>
    refine link_resembles hid (fun _ => rfl) fun e he => ?_
    rw [followLinks_dimensions, ← (DeclaratorInfo.unlined_eq_iff.1 hinfo).1]
    refine (resembles_addDimensions (by omega) _ 0 mode _ info.ty).bind fun ty _ hty => ih (by omega) ?_
    simp_all [DeclaratorInfo.unlined_eq_iff]
  | function hid _ ih =>
    refine link_resembles hid (fun _ => rfl) fun e he => ?_
    rw [followLinks_function]
    refine (resembles_params (by omega) _ 0 _).bind fun ps ps' hps => ih (by omega) ?_
    have htypes := map_ty_of_lineless hps
    simp_all [DeclaratorInfo.unlined_eq_iff]
  | init hid _ ih =>
    refine link_resembles hid (fun _ => rfl) fun e he => ih (by omega) ?_
    simp_all [DeclaratorInfo.unlined_eq_iff]

/-- The walk over the links of a chain does what the walk over the chain does, if that may go deeper by the
number of its nodes. -/
theorem exists_follow_resembles_link (h : env.tree.Spells id links name) :
    ∃ k, ∀ {d d' : Nat} {info info' : DeclaratorInfo}, d + k ≤ d' → info.unlined = info'.unlined →
      Resembles env DeclaratorInfo.unlined (followLinks (descentTo d) mode name links info)
        ((descentTo d').link mode id info') := by
  induction h with
  | identifier hid =>
    refine ⟨0 + 1, fun hd hinfo => resembles_link hid (fun _ => rfl) hd fun e _ => .pure ?_⟩
    simp_all [DeclaratorInfo.unlined_eq_iff]
  | anonymous hid =>
    refine ⟨0 + 1, fun hd hinfo => resembles_link hid (fun _ => rfl) hd fun e _ => .pure ?_⟩
    simp_all [DeclaratorInfo.unlined_eq_iff]
  | pointer hid _ ih =>
    obtain ⟨k, ih⟩ := ih
    refine ⟨k + 1, fun hd hinfo => resembles_link hid (fun _ => rfl) hd fun e he => ?_⟩
    rw [followLinks_stars]
    refine ih he ?_
    simp_all [DeclaratorInfo.unlined_eq_iff]
  | array hid _ ih =>
    obtain ⟨k, ih⟩ := ih
    refine ⟨k + 1, fun hd hinfo => resembles_link hid (fun _ => rfl) hd fun e he => ?_⟩
    rw [followLinks_dimensions, (DeclaratorInfo.unlined_eq_iff.1 hinfo).1]
    refine (resembles_addDimensions (by omega) 0 _ mode _ _).bind fun ty _ hty => ih he ?_
    simp_all [DeclaratorInfo.unlined_eq_iff]
  | function hid _ ih =>
    obtain ⟨k, ih⟩ := ih
    refine ⟨k + 1, fun hd hinfo => resembles_link hid (fun _ => rfl) hd fun e he => ?_⟩
    rw [followLinks_function]
    refine (resembles_params (by omega) 0 _ _).bind fun ps ps' hps => ih he ?_
    have htypes := map_ty_of_lineless hps
    simp_all [DeclaratorInfo.unlined_eq_iff]
  | init hid _ ih =>
    obtain ⟨k, ih⟩ := ih
    refine ⟨k + 1, fun hd hinfo => resembles_link hid (fun _ => rfl) hd fun e he => ih he ?_⟩
    simp_all [DeclaratorInfo.unlined_eq_iff]

/-- Two chains of the same links declare the same, if the walk over the second one may go deeper by the number
of its nodes. -/
theorem exists_declare_resembles (h : env.tree.Spells id links name) (h' : env.tree.Spells id' links name)
    (mode : DeclaratorMode) (base : Ty) :
    ∃ k, ∀ {d d' : Nat}, d + k ≤ d' → Resembles env DeclaratorInfo.unlined
      (declare (descentTo d) mode id base) (declare (descentTo d') mode id' base) := by
  obtain ⟨node, hnode⟩ := h.exists_node
  obtain ⟨node', hnode'⟩ := h'.exists_node
  obtain ⟨k, hfollow⟩ := exists_follow_resembles_link h'
  refine ⟨k, fun {d d'} hd => ?_⟩
  have hlink : Resembles env DeclaratorInfo.unlined
      ((descentTo d).link mode id { ty := base, line := node.line.toNat })
      ((descentTo d').link mode id' { ty := base, line := node'.line.toNat }) :=
    (link_resembles_follow h (Nat.le_refl d) rfl).trans (hfollow hd rfl)
  intro s s' hs
  unfold declare
  rw [declarator_bind hnode, declarator_bind hnode']
  refine hlink.bind (fun info info' hinfo => ?_) s s' hs
  obtain ⟨hty, hname, -⟩ := DeclaratorInfo.unlined_eq_iff.1 hinfo
  rw [hty, hname]
  split
  · exact .failWith _ _ _
  · exact .pure hinfo

end Chains

/-! ### Parameters of function types -/

/-- If what is declared has a function type, then its parameters are those of that type, if a link made it, and
otherwise there are none, and the type is the base. -/
structure OwnsParams (base : Ty) (made : Bool) (info : DeclaratorInfo) : Prop where
  of_made : made → info.ty.isFunction →
    ∃ ps result, info.params = some ps ∧ info.ty = .function result (ps.map (·.ty)) info.variadic
  of_base : ¬made → info.params = none ∧ (info.ty.isFunction → info.ty = base)

namespace OwnsParams

variable {base : Ty} {made : Bool} {info info' : DeclaratorInfo} {sub : Descent}

/-- What is wrapped into another type is not a function any more. -/
theorem of_not_isFunction (h : OwnsParams base made info) {ty : Ty} (hty : ¬ty.isFunction) :
    OwnsParams base made { info with ty } :=
  ⟨fun _ hfunction => absurd hfunction hty,
    fun hmade => ⟨(h.of_base hmade).1, fun hfunction => absurd hfunction hty⟩⟩

theorem not_isFunction_dimension {mode : DeclaratorMode} {line : Nat} {dim : Option ExprId} {ty ty' : Ty}
    (h : Produces env (addDimensions sub mode line [dim] ty) ty') : ¬ty'.isFunction := by
  have hpointer : ∀ ty : Ty, ¬ty.pointerTo.isFunction := fun ty => by cases ty <;> exact Bool.false_ne_true
  unfold addDimensions at h
  split at h
  · obtain rfl := h.of_pure
    exact hpointer ty
  · obtain rfl := h.of_pure
    exact hpointer ty
  · obtain ⟨length, -, h⟩ := h.of_bind
    obtain rfl := h.of_pure
    exact Bool.false_ne_true

theorem addLink {link : Link} (h : OwnsParams base made info)
    (hlink : Produces env (Lower.addLink sub mode info link) info') :
    OwnsParams base (made || link.isFunction) info' := by
  cases link with
  | star =>
    obtain rfl := hlink.of_pure
    simp only [Link.isFunction, Bool.or_false]
    exact h.of_not_isFunction (by cases info.ty <;> exact Bool.false_ne_true)
  | dimension dim =>
    obtain ⟨ty, hty, hlink⟩ := hlink.of_bind
    obtain rfl := hlink.of_pure
    simp only [Link.isFunction, Bool.or_false]
    exact h.of_not_isFunction (not_isFunction_dimension hty)
  | function ps variadic =>
    obtain ⟨found, -, hlink⟩ := hlink.of_bind
    obtain rfl := hlink.of_pure
    exact ⟨fun _ _ => ⟨found, info.ty, rfl, rfl⟩, fun hmade => absurd (Bool.or_true made) hmade⟩
  | init value =>
    obtain rfl := hlink.of_pure
    simp only [Link.isFunction, Bool.or_false]
    exact ⟨h.of_made, h.of_base⟩

theorem followLinks (h : OwnsParams base made info)
    (hlinks : Produces env (Lower.followLinks sub mode name links info) info') :
    OwnsParams base (made || links.any (·.isFunction)) info' := by
  induction links generalizing made info with
  | nil =>
    obtain rfl := hlinks.of_pure
    rw [List.any_nil, Bool.or_false]
    exact ⟨h.of_made, h.of_base⟩
  | cons link links ih =>
    obtain ⟨info, hlink, hlinks⟩ := hlinks.of_bind
    rw [List.any_cons, ← Bool.or_assoc]
    exact ih (h.addLink hlink) hlinks

theorem of_unlined_eq (h : OwnsParams base made info) (heq : info.unlined = info'.unlined) :
    OwnsParams base made info' := by
  obtain ⟨hty, -, -, hparams, hvariadic⟩ := DeclaratorInfo.unlined_eq_iff.1 heq
  refine ⟨fun hmade hfunction => ?_, fun hmade => ?_⟩
  · obtain ⟨ps, result, hps, hfun⟩ := h.of_made hmade (hty ▸ hfunction)
    rw [hps] at hparams
    obtain ⟨ps', hps', heq⟩ := Option.map_eq_some_iff.1 hparams.symm
    exact ⟨ps', result, hps', by rw [← hty, hfun, hvariadic, map_ty_of_lineless heq]⟩
  · obtain ⟨hnone, hbase⟩ := h.of_base hmade
    rw [hnone] at hparams
    exact ⟨Option.map_eq_none_iff.1 hparams.symm, fun hfunction => hty ▸ hbase (hty ▸ hfunction)⟩

/-- What a chain declares. -/
theorem of_declare (h : env.tree.Spells id links name) {d : Nat} {s t : State}
    (hrun : declare (descentTo d) mode id base env s = (.done info, t)) :
    OwnsParams base (links.any (·.isFunction)) info := by
  have hdeclares : Produces env (declare (descentTo d) mode id base) info := ⟨s, t, hrun⟩
  obtain ⟨node, -, hdeclares⟩ := hdeclares.of_bind
  obtain ⟨found, ⟨s, t, hlink⟩, hdeclares⟩ := hdeclares.of_bind
  have hsame : found = info := by
    split at hdeclares
    · exact absurd hdeclares Produces.not_failWith
    · exact hdeclares.of_pure
  subst hsame
  have hstart : OwnsParams base false { ty := base, line := node.line.toNat } :=
    ⟨fun hmade => absurd hmade Bool.false_ne_true, fun _ => ⟨rfl, fun _ => rfl⟩⟩
  rcases link_resembles_follow h (Nat.le_refl d) rfl s s rfl with hcut | hagrees
  · rw [hlink] at hcut
    cases hcut
  · rw [hlink] at hagrees
    generalize hfollow : Lower.followLinks (descentTo d) mode name links _ env s = r at hagrees
    cases hagrees with
    | done hyield _ => exact (hstart.followLinks ⟨s, _, hfollow⟩).of_unlined_eq hyield.symm

end OwnsParams

/-! ### Regrouping -/

/-- A declarator of a tree without cycles is never cut off. -/
theorem resolveDeclarator_ne_endless (hvalid : env.tree.validate = .ok ()) (hacyclic : env.tree.IsAcyclic)
    (hreach : env.tree.Reaches (.declarator id)) (mode : DeclaratorMode) (base : Ty) (s : State) :
    (resolveDeclarator mode id base env s).1 ≠ .stuck .endless := by
  have hbears : Bears env.tree env.tree.exprDepth (.declarator id) :=
    bears_start hvalid hreach (length_population_le_exprDepth env.tree)
  have hregular : Regular (.ofAcyclic env hvalid hacyclic) false (resolveDeclarator mode id base) :=
    regular_resolveDeclarator hbears mode base
  exact fun hstuck => (hregular.supports s _ hstuck).1 rfl

/-- **A chain of declarators means the same however it is grouped.** Where no walk is cut off, a chain and its
regrouping come to the same type, name, initializer, parameters and variadic flag, or to the same failure,
and to the same state, up to the lines of what was declared and reported; and one walk ends at some depth if
the other does. In a valid tree without cycles both end. And whatever functions are around it, a function
type that the chain made has the parameters that are declared, in order. -/
theorem declare_regrouped (h : env.tree.Regroups id id') (mode : DeclaratorMode) (base : Ty) (s : State) :
    (∀ d d', (declare (descentTo d) mode id base env s).1 ≠ .stuck .endless →
      (declare (descentTo d') mode id' base env s).1 ≠ .stuck .endless →
      Agrees DeclaratorInfo.unlined (declare (descentTo d) mode id base env s)
        (declare (descentTo d') mode id' base env s)) ∧
    ((∃ d, (declare (descentTo d) mode id base env s).1 ≠ .stuck .endless) ↔
      ∃ d, (declare (descentTo d) mode id' base env s).1 ≠ .stuck .endless) ∧
    (env.tree.validate = .ok () → env.tree.IsAcyclic → env.tree.Reaches (.declarator id) →
      env.tree.Reaches (.declarator id') → Agrees DeclaratorInfo.unlined (resolveDeclarator mode id base env s)
        (resolveDeclarator mode id' base env s)) ∧
    ∃ links name, env.tree.Spells id links name ∧ env.tree.Spells id' links name ∧
      ∀ d info t, declare (descentTo d) mode id base env s = (.done info, t) →
        OwnsParams base (links.any (·.isFunction)) info := by
  obtain ⟨links, name, hspells, hspells'⟩ := h.exists_spells
  obtain ⟨k, hforth⟩ := exists_declare_resembles hspells hspells' mode base
  obtain ⟨k', hback⟩ := exists_declare_resembles hspells' hspells mode base
  have hagrees : ∀ d d', (declare (descentTo d) mode id base env s).1 ≠ .stuck .endless →
      (declare (descentTo d') mode id' base env s).1 ≠ .stuck .endless →
      Agrees DeclaratorInfo.unlined (declare (descentTo d) mode id base env s)
        (declare (descentTo d') mode id' base env s) := by
    intro d d' hd hd'
    -- Both walks are compared with one of the second chain that goes deeper than either.
    have hdeep := (hforth (Nat.le_add_right (d + k) d') s s rfl).resolve_left hd
    have hsub := descentTo_deepens (Nat.le_add_left d' (d + k))
    have hsame := (deepens_declare hsub mode id' base env s).resolve_left hd'
    exact hsame ▸ hdeep
  refine ⟨hagrees, ⟨fun ⟨d, hd⟩ => ⟨d + k, fun hcut => ?_⟩, fun ⟨d, hd⟩ => ⟨d + k', fun hcut => ?_⟩⟩,
    fun hvalid hacyclic hreach hreach' => ?_, links, name, hspells, hspells', fun d info t => .of_declare hspells⟩
  · have hdeep := (hforth (Nat.le_refl _) s s rfl).resolve_left hd
    exact hd (hdeep.symm.eq_stuck hcut)
  · have hdeep := (hback (Nat.le_refl _) s s rfl).resolve_left hd
    exact hd (hdeep.symm.eq_stuck hcut)
  · exact hagrees _ _ (resolveDeclarator_ne_endless hvalid hacyclic hreach mode base s)
      (resolveDeclarator_ne_endless hvalid hacyclic hreach' mode base s)

/-- The tree of `int (**f(int x))[2][3], (**f(int x))[2][3];`, where each star and each dimension of the
second declarator has a node of its own. -/
def regroupedTree : Tree where
  exprs := #[⟨.integer 2, 1⟩, ⟨.integer 3, 1⟩]
  specs := #[⟨.named "int", 1⟩]
  declarators := #[⟨.identifier "x", 1⟩,
    ⟨.identifier "f", 1⟩, ⟨.function ⟨1⟩ [⟨⟨0⟩, some ⟨0⟩⟩] false, 1⟩, ⟨.pointer ⟨2⟩ 2, 1⟩,
    ⟨.array ⟨3⟩ [some ⟨0⟩, some ⟨1⟩], 1⟩,
    ⟨.identifier "f", 2⟩, ⟨.function ⟨5⟩ [⟨⟨0⟩, some ⟨0⟩⟩] false, 3⟩, ⟨.pointer ⟨6⟩ 1, 4⟩,
    ⟨.pointer ⟨7⟩ 1, 5⟩, ⟨.array ⟨8⟩ [some ⟨0⟩], 6⟩, ⟨.array ⟨9⟩ [some ⟨1⟩], 7⟩]
  stmts := #[⟨.variable ⟨.normal, ⟨0⟩, [⟨4⟩, ⟨10⟩]⟩, 1⟩]
  root := [⟨0⟩]

/-- Both declarators declare the same function. -/
theorem declare_regrouped_nested :
    let env : Env := ⟨regroupedTree, {}⟩
    regroupedTree.Regroups ⟨4⟩ ⟨10⟩ ∧ (resolveDeclarator .normal ⟨4⟩ .word env (.initial {})).1.isDone ∧
      Agrees DeclaratorInfo.unlined (resolveDeclarator .normal ⟨4⟩ .word env (.initial {}))
        (resolveDeclarator .normal ⟨10⟩ .word env (.initial {})) ∧
      ∃ links name, regroupedTree.Spells ⟨4⟩ links name ∧ regroupedTree.Spells ⟨10⟩ links name := by
  have hflat : regroupedTree.declarator? ⟨4⟩ = some ⟨.array ⟨3⟩ ([some ⟨0⟩] ++ [some ⟨1⟩]), 1⟩ := rfl
  have hpointers : regroupedTree.Regroups ⟨3⟩ ⟨8⟩ :=
    .dividePointer rfl rfl rfl rfl (.function rfl rfl (.identifier rfl rfl))
  have hregroups : regroupedTree.Regroups ⟨4⟩ ⟨10⟩ := .divideArray hflat rfl rfl hpointers
  have hacyclic : regroupedTree.IsAcyclic := by
    refine Tree.isAcyclic_of_rank (fun
      | .expr id => id.index
      | .spec id => id.index
      | .declarator id => 2 + id.index
      | .stmt id => 13 + id.index) ?_
    decide +kernel
  have hreach : regroupedTree.Reaches (.declarator ⟨4⟩) ∧ regroupedTree.Reaches (.declarator ⟨10⟩) :=
    have hroot : regroupedTree.Reaches (.stmt ⟨0⟩) := ⟨⟨0⟩, by decide, .refl⟩
    ⟨hroot.child (by decide), hroot.child (by decide)⟩
  have hdone : (resolveDeclarator .normal ⟨4⟩ .word ⟨regroupedTree, {}⟩ (.initial {})).1.isDone := by
    decide +kernel
  obtain ⟨-, -, hagrees, links, name, hspells, hspells', -⟩ :=
    @declare_regrouped ⟨regroupedTree, {}⟩ _ _ hregroups .normal .word (.initial {})
  exact ⟨hregroups, hdone, hagrees rfl hacyclic hreach.1 hreach.2, links, name, hspells, hspells'⟩

end Lower

end TreeFlow
