import TreeFlow.Proofs.Graph.Dominance

/-!
# Well-formed flow graphs

The invariant of a flow graph under construction, and what each operation has to respect to keep it.
A finished graph that satisfies it is strict (`WellFormed.isStrict`): every value is computed before it
is used.

The invariant is stated with parents, which are given to blocks that are only ever entered from one
place. What an instruction reads is a slot, or stands earlier in its block, or stands in the code of
an ancestor. A phi stands in a block with a parent and lists the blocks that it is entered from, so
no more edges may lead there.
-/

namespace TreeFlow

namespace Function

variable {f g : Function} {P Q : Parents} {b c d e : BlockId} {x y : InstId}

theorem has_of_mem_codeAt (hx : x ∈ f.codeAt b) : f.Has b :=
  has_of_mem_instsAt (mem_instsAt_of_mem_codeAt hx)

/-- A value is known at the end of a block: it is a slot, or stands in the code of the block or of
an ancestor. -/
def Known (f : Function) (P : Parents) (b : BlockId) (y : InstId) : Prop :=
  f.IsSlot y ∨ ∃ d, P.Below d b ∧ y ∈ f.codeAt d

/-- An operand is known at the end of a block: constants and arguments always are. -/
def KnownOperand (f : Function) (P : Parents) (b : BlockId) (v : Operand) : Prop :=
  ∀ y, v = .inst y → f.Known P b y

theorem Known.below (h : f.Known P b y) (hbc : P.Below b c) : f.Known P c y := by
  rcases h with hslot | ⟨d, hd, hy⟩
  · exact .inl hslot
  · exact .inr ⟨d, hd.trans hbc, hy⟩

/-- No phi stands in a block. -/
def NoPhi (f : Function) (b : BlockId) : Prop :=
  ∀ x ∈ f.codeAt b, ∀ i, f.inst? x = some i → i.kind.incoming? = none

theorem noPhi_of_codeAt_eq_nil (h : f.codeAt b = []) : f.NoPhi b := fun x hx => by simp [h] at hx

/-- The invariant of a graph under construction. -/
structure WellFormed (f : Function) (P : Parents) : Prop where
  entry : ∃ e, f.entry? = some e ∧ P e = none
  nodup : f.layout.Nodup
  mem_layout : ∀ b, b ∈ f.layout ↔ f.Has b
  whole : f.Whole
  /-- Slots stand in the entry only, in front of its code. -/
  code : ∀ b, ∀ x ∈ f.codeAt b, f.allocates x = false
  slots : ∀ b, f.slotsAt b ≠ [] → f.entry? = some b
  parent : ∀ b d, P b = some d → f.Has b ∧ f.Has d
  has_successor : ∀ p, ∀ b ∈ f.successors p, f.Has b
  below : ∀ p, ∀ b ∈ f.successors p, ∀ d, P b = some d → P.Below d p
  uses : ∀ b before x after i, f.codeAt b = before ++ x :: after → f.inst? x = some i →
    i.kind.incoming? = none → ∀ y, Operand.inst y ∈ i.kind.operands →
      f.IsSlot y ∨ y ∈ before ∨ ∃ d, d ≠ b ∧ P.Below d b ∧ y ∈ f.codeAt d
  ends : ∀ b t, f.termAt b = some t → ∀ v ∈ t.operands, f.KnownOperand P b v
  phis : ∀ b, ∀ x ∈ f.codeAt b, ∀ i incoming, f.inst? x = some i →
    i.kind.incoming? = some incoming → (P b).isSome ∧ (incoming.map Prod.snd).Nodup ∧
      (∀ p, p ∈ incoming.map Prod.snd ↔ b ∈ f.successors p) ∧
      ∀ v p, (v, p) ∈ incoming → f.KnownOperand P p v

namespace WellFormed

variable (h : f.WellFormed P)
include h

theorem has_entry (he : f.entry? = some e) : f.Has e :=
  (h.mem_layout e).1 (List.mem_of_mem_head? he)

theorem entry_parent (he : f.entry? = some e) : P e = none := by
  obtain ⟨e', he', hnone⟩ := h.entry
  obtain rfl : e' = e := by simpa [he'] using he
  exact hnone

/-- No phi stands in a block without a parent. -/
theorem noPhi (hb : P b = none) : f.NoPhi b := by
  intro x hx i hi
  cases hin : i.kind.incoming? with
  | none => rfl
  | some incoming => simpa [hb] using (h.phis b x hx i incoming hi hin).1

/-- A block keeps its ancestors when parents are only given to blocks that are new. -/
theorem below_mono (hPQ : ∀ c, f.Has c → Q c = P c) (hb : f.Has b) (hd : P.Below d b) :
    Q.Below d b :=
  hd.congr hb (fun _ _ _ hc => (h.parent _ _ hc).2) hPQ

end WellFormed

/-! ### Growth -/

/-- A later stage of a graph. Slots and code are only ever added behind those that are there, and a
closed block stays as it is. -/
structure Extends (f : Function) (P : Parents) (g : Function) (Q : Parents) : Prop where
  sig : g.sig = f.sig
  entry : g.entry? = f.entry?
  has : ∀ b, f.Has b → g.Has b
  inst : ∀ x i, f.inst? x = some i → g.inst? x = some i
  slots : ∀ b, f.slotsAt b <+: g.slotsAt b
  code : ∀ b, f.codeAt b <+: g.codeAt b
  closed : ∀ b t, f.termAt b = some t → g.codeAt b = f.codeAt b ∧ g.termAt b = some t
  parent : ∀ b, f.Has b → Q b = P b

namespace Extends

theorem refl (f : Function) (P : Parents) : Extends f P f P where
  sig := rfl
  entry := rfl
  has _ hb := hb
  inst _ _ hi := hi
  slots _ := List.prefix_refl _
  code _ := List.prefix_refl _
  closed _ _ ht := ⟨rfl, ht⟩
  parent _ _ := rfl

theorem trans {k : Function} {R : Parents} (hfg : Extends f P g Q) (hgk : Extends g Q k R) :
    Extends f P k R where
  sig := hgk.sig.trans hfg.sig
  entry := hgk.entry.trans hfg.entry
  has b hb := hgk.has b (hfg.has b hb)
  inst x i hi := hgk.inst x i (hfg.inst x i hi)
  slots b := (hfg.slots b).trans (hgk.slots b)
  code b := (hfg.code b).trans (hgk.code b)
  closed b t ht := by
    obtain ⟨hcode, ht⟩ := hfg.closed b t ht
    obtain ⟨hcode', ht⟩ := hgk.closed b t ht
    exact ⟨hcode'.trans hcode, ht⟩
  parent b hb := (hgk.parent b (hfg.has b hb)).trans (hfg.parent b hb)

variable (hg : Extends f P g Q)
include hg

theorem isSlot (hy : f.IsSlot y) : g.IsSlot y := by
  obtain ⟨e, he, hy⟩ := hy
  exact ⟨e, hg.entry.trans he, (hg.slots e).subset hy⟩

/-- What is known at the end of a block stays known there. -/
theorem known (h : f.WellFormed P) (hb : f.Has b) (hy : f.Known P b y) : g.Known Q b y := by
  rcases hy with hslot | ⟨d, hd, hy⟩
  · exact .inl (hg.isSlot hslot)
  · exact .inr ⟨d, h.below_mono hg.parent hb hd, (hg.code d).subset hy⟩

theorem knownOperand (h : f.WellFormed P) (hb : f.Has b) {v : Operand}
    (hv : f.KnownOperand P b v) : g.KnownOperand Q b v :=
  fun y hy => hg.known h hb (hv y hy)

/-- What a value that was used before is known by is there still. -/
theorem uses (h : f.WellFormed P) (hb : f.Has b) {before : List InstId}
    (hy : f.IsSlot y ∨ y ∈ before ∨ ∃ d, d ≠ b ∧ P.Below d b ∧ y ∈ f.codeAt d) :
    g.IsSlot y ∨ y ∈ before ∨ ∃ d, d ≠ b ∧ Q.Below d b ∧ y ∈ g.codeAt d := by
  rcases hy with hy | hy | ⟨d, hne, hd, hy⟩
  · exact .inl (hg.isSlot hy)
  · exact .inr (.inl hy)
  · exact .inr (.inr ⟨d, hne, h.below_mono hg.parent hb hd, (hg.code d).subset hy⟩)

end Extends

/-- What the code of one expression leaves of a graph. Only the block that was open at the cursor,
if there was one, is written to; all other blocks stay as they are, and edges are only added to
blocks that are new. Whatever is closed leads on to such a block. -/
structure Grows (w : Option BlockId) (f : Function) (P : Parents) (g : Function) (Q : Parents) :
    Prop extends Extends f P g Q where
  layout : f.layout <+: g.layout
  frozen : ∀ b, f.Has b → some b ≠ w → g.codeAt b = f.codeAt b ∧ g.termAt b = f.termAt b
  edge : ∀ p, ∀ b ∈ g.successors p, b ∈ f.successors p ∨ ¬ f.Has b
  onward : ∀ b t, g.termAt b = some t → f.termAt b = some t ∨ t.successors ≠ []

namespace Grows

variable {w : Option BlockId}

theorem refl (w : Option BlockId) (f : Function) (P : Parents) : Grows w f P f P where
  toExtends := .refl f P
  layout := List.prefix_refl _
  frozen _ _ _ := ⟨rfl, rfl⟩
  edge _ _ hb := .inl hb
  onward _ _ ht := .inl ht

/-- What is written after the cursor has moved on to a new block is still only written to new
blocks. -/
theorem trans {k : Function} {R : Parents} {w' : Option BlockId} (hfg : Grows w f P g Q)
    (hgk : Grows w' g Q k R) (hw : ∀ b, w' = some b → f.Has b → w = some b) :
    Grows w f P k R where
  toExtends := hfg.toExtends.trans hgk.toExtends
  layout := hfg.layout.trans hgk.layout
  frozen b hb hne := by
    have hne' : some b ≠ w' := fun heq => hne (hw b heq.symm hb).symm
    obtain ⟨hcode, hterm⟩ := hgk.frozen b (hfg.has b hb) hne'
    obtain ⟨hcode', hterm'⟩ := hfg.frozen b hb hne
    exact ⟨hcode.trans hcode', hterm.trans hterm'⟩
  edge p b hb := by
    rcases hgk.edge p b hb with hb | hb
    · exact hfg.edge p b hb
    · exact .inr fun hf => hb (hfg.has b hf)
  onward b t ht := (hgk.onward b t ht).elim (hfg.onward b t) .inr

/-- Nothing new leads to a block that is there. -/
theorem mem_successors_iff {w : Option BlockId} (hg : Grows w f P g Q) (hb : f.Has b)
    {p : BlockId} : b ∈ g.successors p ↔ b ∈ f.successors p := by
  refine ⟨fun h => (hg.edge p b h).resolve_right (not_not_intro hb), fun h => ?_⟩
  obtain ⟨t, ht, hbt⟩ := Function.mem_successors_iff.1 h
  exact Function.mem_successors_iff.2 ⟨t, (hg.closed p t ht).2, hbt⟩

end Grows

/-! ### A new block -/

section AddBlock

variable {layout : List BlockId}

/-- A block that is not there has no parent. -/
theorem WellFormed.parent_of_not_has (h : f.WellFormed P) (hb : ¬ f.Has b) : P b = none := by
  cases hp : P b with
  | none => rfl
  | some d => exact absurd (h.parent b d hp).1 hb

theorem extends_addBlock (hhead : layout.head? = f.layout.head?) :
    Extends f P (f.addBlock layout) P where
  sig := rfl
  entry := hhead
  has b hb := has_addBlock.2 (.inl hb)
  inst _ _ hi := hi
  slots b := by simp
  code b := by simp
  closed b t ht := by simpa using ht
  parent _ _ := rfl

/-- A new block at the end of the layout. -/
theorem grows_addBlock (w : Option BlockId) (hne : f.layout ≠ []) :
    Grows w f P (f.addBlock (f.layout ++ [f.nextBlock])) P where
  toExtends := extends_addBlock (List.head?_append_of_ne_nil _ hne)
  layout := List.prefix_append _ _
  frozen b _ _ := by simp
  edge p b hb := .inl (successors_addBlock ▸ hb)
  onward b t ht := .inl (termAt_addBlock ▸ ht)

theorem WellFormed.addBlock (h : f.WellFormed P) (hhead : layout.head? = f.layout.head?)
    (hperm : layout.Perm (f.layout ++ [f.nextBlock])) : (f.addBlock layout).WellFormed P := by
  have hg : Extends f P (f.addBlock layout) P := extends_addBlock hhead
  obtain ⟨e, he, hnone⟩ := h.entry
  exact {
    entry := ⟨e, hg.entry.trans he, hnone⟩
    nodup := by
      refine hperm.nodup_iff.2 (List.nodup_append.2 ⟨h.nodup, by simp, ?_⟩)
      rintro b hb _ hc rfl
      obtain rfl := List.mem_singleton.1 hc
      exact f.not_has_nextBlock ((h.mem_layout _).1 hb)
    mem_layout := fun b => by
      rw [layout_addBlock, hperm.mem_iff, List.mem_append, List.mem_singleton, h.mem_layout,
        has_addBlock]
    whole := h.whole.addBlock
    code := fun b x hx => h.code b x (codeAt_addBlock ▸ hx)
    slots := fun b hb => hg.entry.trans (h.slots b (slotsAt_addBlock ▸ hb))
    parent := fun b d hb => (h.parent b d hb).imp (hg.has b) (hg.has d)
    has_successor := fun p b hb => hg.has b (h.has_successor p b (successors_addBlock ▸ hb))
    below := fun p b hb => h.below p b (successors_addBlock ▸ hb)
    uses := fun b before x after i hsplit hi hin y hy => by
      rw [codeAt_addBlock] at hsplit
      have hb : f.Has b := has_of_mem_codeAt (hsplit ▸ List.mem_append_cons_self)
      exact hg.uses h hb (h.uses b before x after i hsplit hi hin y hy)
    ends := fun b t ht v hv => by
      rw [termAt_addBlock] at ht
      exact hg.knownOperand h (has_of_termAt ht) (h.ends b t ht v hv)
    phis := fun b x hx i incoming hi hin => by
      rw [codeAt_addBlock] at hx
      obtain ⟨hsome, hnodup, hmem, hsource⟩ := h.phis b x hx i incoming hi hin
      refine ⟨hsome, hnodup, fun p => by rw [successors_addBlock]; exact hmem p, fun v p hvp => ?_⟩
      have hedge : b ∈ f.successors p := (hmem p).1 (List.mem_map_of_mem hvp)
      exact hg.knownOperand h (has_of_mem_successors hedge) (hsource v p hvp) }

end AddBlock

/-! ### The first block -/

/-- A function that no code was written to. -/
structure IsBlank (f : Function) : Prop where
  blocks : f.blocks = #[]
  layout : f.layout = []

namespace IsBlank

variable (h : f.IsBlank)
include h

theorem not_has (b : BlockId) : ¬ f.Has b := by
  rw [Has, h.blocks]
  exact Nat.not_lt_zero _

/-- The first block is the entry, and nothing else is known of the function. -/
theorem wellFormed_addBlock : (f.addBlock (f.layout ++ [f.nextBlock])).WellFormed fun _ => none := by
  have hinsts : ∀ b, f.instsAt b = [] := fun b => instsAt_of_not_has (h.not_has b)
  have hcode : ∀ b, f.codeAt b = [] := fun b => by rw [codeAt, hinsts b]; rfl
  have hterm : ∀ b, f.termAt b = none := fun b => termAt_of_not_has (h.not_has b)
  have hsucc : ∀ b, f.successors b = [] := fun b => successors_of_termAt_none (hterm b)
  exact {
    entry := ⟨f.nextBlock, by rw [ entry?, layout_addBlock, h.layout]; rfl, rfl⟩
    nodup := by simp [h.layout]
    mem_layout := fun b => by simp [h.layout, has_addBlock, h.not_has b]
    whole := fun b x hx => by simp [hinsts b] at hx
    code := fun b x hx => by simp [hcode b] at hx
    slots := fun b hb => by simp [slotsAt, hinsts b] at hb
    parent := fun b d hd => by cases hd
    has_successor := fun p b hb => by simp [hsucc p] at hb
    below := fun p b hb d hd => by cases hd
    uses := fun b before x after i hsplit => by simp [hcode b] at hsplit
    ends := fun b t ht => by simp [hterm b] at ht
    phis := fun b x hx => by simp [hcode b] at hx }

end IsBlank

/-! ### A new parent -/

section Adopt

variable {bs : List BlockId}

theorem Known.adopt (hbs : ∀ b ∈ bs, P b = none) (d : BlockId) (hy : f.Known P c y) :
    f.Known (P.adopt bs d) c y := by
  rcases hy with hslot | ⟨a, ha, hy⟩
  · exact .inl hslot
  · exact .inr ⟨a, ha.adopt hbs d, hy⟩

theorem Grows.adopt {w : Option BlockId} (hg : Grows w f P g Q) (hbs : ∀ b ∈ bs, ¬ f.Has b)
    (d : BlockId) : Grows w f P g (Q.adopt bs d) where
  __ := hg
  parent c hc := (Parents.adopt_of_not_mem d fun hmem => hbs c hmem hc).trans (hg.parent c hc)

/-- Blocks without a parent are given one that all blocks in front of them lie below. -/
theorem WellFormed.adopt (h : f.WellFormed P) (hnone : ∀ b ∈ bs, P b = none)
    (hbs : ∀ b ∈ bs, f.Has b ∧ f.entry? ≠ some b ∧ ∀ p, b ∈ f.successors p → P.Below d p)
    (hd : f.Has d) : f.WellFormed (P.adopt bs d) := by
  have hother : ∀ c a, P.adopt bs d c = some a → (c ∈ bs ∧ a = d) ∨ P c = some a := by
    intro c a hc
    by_cases hmem : c ∈ bs
    · rw [Parents.adopt_of_mem d hmem] at hc
      exact .inl ⟨hmem, (Option.some.inj hc).symm⟩
    · rw [Parents.adopt_of_not_mem d hmem] at hc
      exact .inr hc
  obtain ⟨e, hentry, hroot⟩ := h.entry
  exact {
    entry := ⟨e, hentry,
      (Parents.adopt_of_not_mem d fun hmem => (hbs e hmem).2.1 hentry).trans hroot⟩
    nodup := h.nodup
    mem_layout := h.mem_layout
    whole := h.whole
    code := h.code
    slots := h.slots
    parent := fun c a hc => by
      rcases hother c a hc with ⟨hmem, rfl⟩ | hc
      · exact ⟨(hbs c hmem).1, hd⟩
      · exact h.parent c a hc
    has_successor := h.has_successor
    below := fun p c hc a ha => by
      rcases hother c a ha with ⟨hmem, rfl⟩ | ha
      · exact ((hbs c hmem).2.2 p hc).adopt hnone _
      · exact (h.below p c hc a ha).adopt hnone _
    uses := fun c before x after i hsplit hi hin y hy => by
      rcases h.uses c before x after i hsplit hi hin y hy with hy | hy | ⟨a, hne, ha, hy⟩
      · exact .inl hy
      · exact .inr (.inl hy)
      · exact .inr (.inr ⟨a, hne, ha.adopt hnone _, hy⟩)
    ends := fun c t ht v hv y hy => (h.ends c t ht v hv y hy).adopt hnone _
    phis := fun c x hx i incoming hi hin => by
      obtain ⟨hsome, hnodup, hmem, hsource⟩ := h.phis c x hx i incoming hi hin
      refine ⟨?_, hnodup, hmem, fun v p hvp y hy => (hsource v p hvp y hy).adopt hnone _⟩
      rwa [Parents.adopt_of_not_mem]
      intro hmem
      simp [hnone c hmem] at hsome }

end Adopt

/-! ### A new slot -/

section Reserve

variable {ty : Ty} (h : f.WellFormed P) (he : f.entry? = some e)
include h he

theorem WellFormed.grows_reserve (w : Option BlockId) : Grows w f P (f.reserve e ty) P where
  sig := rfl
  entry := rfl
  has b hb := has_reserve.2 hb
  inst _ _ hi := inst?_reserve_of_some hi
  slots b := by
    rw [(slots_code_reserve h.whole (h.has_entry he)).1]
    split
    · exact List.prefix_append _ _
    · exact List.prefix_refl _
  code _ := (slots_code_reserve h.whole (h.has_entry he)).2.symm ▸ List.prefix_refl _
  closed b t ht := ⟨(slots_code_reserve h.whole (h.has_entry he)).2, by simpa using ht⟩
  parent _ _ := rfl
  layout := List.prefix_refl _
  frozen b _ _ := ⟨(slots_code_reserve h.whole (h.has_entry he)).2, termAt_reserve⟩
  edge p b hb := .inl (successors_reserve ▸ hb)
  onward b t ht := .inl (termAt_reserve ▸ ht)

theorem WellFormed.isSlot_reserve : (f.reserve e ty).IsSlot f.nextInst :=
  ⟨e, he, by rw [(slots_code_reserve h.whole (h.has_entry he)).1, if_pos rfl]; simp⟩

theorem WellFormed.reserve : (f.reserve e ty).WellFormed P := by
  have hg : Grows none f P (f.reserve e ty) P := h.grows_reserve he none
  have hcode : ∀ b, (f.reserve e ty).codeAt b = f.codeAt b :=
    fun b => (slots_code_reserve h.whole (h.has_entry he)).2
  have hinst : ∀ b, ∀ x ∈ f.codeAt b, (f.reserve e ty).inst? x = f.inst? x := fun b x hx => by
    obtain ⟨i, hi⟩ := Option.isSome_iff_exists.1 (h.whole b x (mem_instsAt_of_mem_codeAt hx))
    rw [hi, inst?_reserve_of_some hi]
  exact {
    entry := h.entry
    nodup := h.nodup
    mem_layout := fun b => (h.mem_layout b).trans has_reserve.symm
    whole := h.whole.reserve (h.has_entry he)
    code := fun b x hx => by
      rw [hcode] at hx
      rw [allocates_reserve (h.whole b x (mem_instsAt_of_mem_codeAt hx)), h.code b x hx]
    slots := fun b hb => by
      rw [(slots_code_reserve h.whole (h.has_entry he)).1] at hb
      split at hb
      · next heq => exact heq ▸ he
      · exact h.slots b hb
    parent := fun b d hb => (h.parent b d hb).imp has_reserve.2 has_reserve.2
    has_successor := fun p b hb => has_reserve.2 (h.has_successor p b (successors_reserve ▸ hb))
    below := fun p b hb => h.below p b (successors_reserve ▸ hb)
    uses := fun b before x after i hsplit hi hin y hy => by
      rw [hcode] at hsplit
      have hx : x ∈ f.codeAt b := hsplit ▸ List.mem_append_cons_self
      rw [hinst b x hx] at hi
      exact hg.uses h (has_of_mem_codeAt hx) (h.uses b before x after i hsplit hi hin y hy)
    ends := fun b t ht v hv => by
      rw [termAt_reserve] at ht
      exact hg.knownOperand h (has_of_termAt ht) (h.ends b t ht v hv)
    phis := fun b x hx i incoming hi hin => by
      rw [hcode] at hx
      rw [hinst b x hx] at hi
      obtain ⟨hsome, hnodup, hmem, hsource⟩ := h.phis b x hx i incoming hi hin
      refine ⟨hsome, hnodup, fun p => by rw [successors_reserve]; exact hmem p, fun v p hvp => ?_⟩
      have hedge : b ∈ f.successors p := (hmem p).1 (List.mem_map_of_mem hvp)
      exact hg.knownOperand h (has_of_mem_successors hedge) (hsource v p hvp) }

end Reserve

/-! ### A new instruction -/

section Append

variable {i : Inst} (h : f.WellFormed P) (hc : f.Has c) (hopen : f.termAt c = none)
  (hi : i.kind.isAlloca = false)
include h hc hopen hi

theorem WellFormed.grows_append : Grows (some c) f P (f.append c i) P where
  sig := rfl
  entry := rfl
  has b hb := has_append.2 hb
  inst _ _ hi := inst?_append_of_some hi
  slots _ := (slots_code_append h.whole hc hi).1.symm ▸ List.prefix_refl _
  code b := by
    rw [(slots_code_append h.whole hc hi).2]
    split
    · exact List.prefix_append _ _
    · exact List.prefix_refl _
  closed b t ht := by
    have hne : c ≠ b := by
      rintro rfl
      simp [hopen] at ht
    rw [(slots_code_append h.whole hc hi).2, if_neg hne, termAt_append]
    exact ⟨rfl, ht⟩
  parent _ _ := rfl
  layout := List.prefix_refl _
  frozen b _ hne := by
    rw [(slots_code_append h.whole hc hi).2, if_neg fun heq => hne (congrArg some heq.symm)]
    exact ⟨rfl, termAt_append⟩
  edge p b hb := .inl (successors_append ▸ hb)
  onward b t ht := .inl (termAt_append ▸ ht)

/-- An instruction that stands where its operands are known. A phi has to list the blocks that its
block is entered from. -/
theorem WellFormed.append
    (huses : i.kind.incoming? = none → ∀ v ∈ i.kind.operands, f.KnownOperand P c v)
    (hphi : ∀ incoming, i.kind.incoming? = some incoming → (P c).isSome ∧
      (incoming.map Prod.snd).Nodup ∧ (∀ p, p ∈ incoming.map Prod.snd ↔ c ∈ f.successors p) ∧
      ∀ v p, (v, p) ∈ incoming → f.KnownOperand P p v) :
    (f.append c i).WellFormed P := by
  have hg : Grows (some c) f P (f.append c i) P := h.grows_append hc hopen hi
  have hcode : ∀ b, (f.append c i).codeAt b =
      if c = b then f.codeAt b ++ [f.nextInst] else f.codeAt b :=
    fun b => (slots_code_append h.whole hc hi).2
  have hold : ∀ b, ∀ x ∈ f.codeAt b, (f.append c i).inst? x = f.inst? x := fun b x hx => by
    obtain ⟨j, hj⟩ := Option.isSome_iff_exists.1 (h.whole b x (mem_instsAt_of_mem_codeAt hx))
    rw [hj, inst?_append_of_some hj]
  have hnew : (f.append c i).inst? f.nextInst = some i := by rw [inst?_append, if_pos rfl]
  -- An instruction is an old one in its old place, or the new one at the end of its block.
  have hmem : ∀ b, ∀ x ∈ (f.append c i).codeAt b, x ∈ f.codeAt b ∨ (b = c ∧ x = f.nextInst) := by
    intro b x hx
    rw [hcode] at hx
    split at hx
    · next heq =>
      rcases List.mem_append.1 hx with hx | hx
      · exact .inl hx
      · exact .inr ⟨heq.symm, List.mem_singleton.1 hx⟩
    · exact .inl hx
  exact {
    entry := h.entry
    nodup := h.nodup
    mem_layout := fun b => (h.mem_layout b).trans has_append.symm
    whole := h.whole.append hc
    code := fun b x hx => by
      rcases hmem b x hx with hx | ⟨-, rfl⟩
      · rw [allocates_append (h.whole b x (mem_instsAt_of_mem_codeAt hx)), h.code b x hx]
      · rw [allocates_append_nextInst, hi]
    slots := fun b hb => by
      rw [(slots_code_append h.whole hc hi).1] at hb
      exact h.slots b hb
    parent := fun b d hb => (h.parent b d hb).imp has_append.2 has_append.2
    has_successor := fun p b hb => has_append.2 (h.has_successor p b (successors_append ▸ hb))
    below := fun p b hb => h.below p b (successors_append ▸ hb)
    uses := fun b before x after j hsplit hj hin y hy => by
      have hx : x ∈ (f.append c i).codeAt b := hsplit ▸ List.mem_append_cons_self
      rw [hcode] at hsplit
      split at hsplit
      · next heq =>
        subst heq
        rcases List.eq_nil_or_concat' after with rfl | ⟨after, z, rfl⟩
        · -- The new instruction: its operands are known at the end of the block.
          obtain ⟨rfl, hx⟩ := List.append_inj' hsplit rfl
          obtain rfl : f.nextInst = x := by simpa using hx
          obtain rfl : i = j := by simpa [hnew] using hj
          rcases huses hin _ hy y rfl with hslot | ⟨d, hd, hy⟩
          · exact .inl (hg.isSlot hslot)
          · by_cases hdc : d = c
            · exact .inr (.inl (hdc ▸ hy))
            · exact .inr (.inr ⟨d, hdc, hd, (hg.code d).subset hy⟩)
        · have hsplit' : f.codeAt c = before ++ x :: after := by
            have := List.append_inj' (hsplit.trans (by simp : before ++ x :: (after ++ [z]) =
              (before ++ x :: after) ++ [z])) rfl
            exact this.1
          rw [hold c x (hsplit' ▸ List.mem_append_cons_self)] at hj
          exact hg.uses h hc (h.uses c before x after j hsplit' hj hin y hy)
      · have hx : x ∈ f.codeAt b := hsplit ▸ List.mem_append_cons_self
        rw [hold b x hx] at hj
        exact hg.uses h (has_of_mem_codeAt hx) (h.uses b before x after j hsplit hj hin y hy)
    ends := fun b t ht v hv => by
      rw [termAt_append] at ht
      exact hg.knownOperand h (has_of_termAt ht) (h.ends b t ht v hv)
    phis := fun b x hx j incoming hj hin => by
      have hlist : (P b).isSome ∧ (incoming.map Prod.snd).Nodup ∧
          (∀ p, p ∈ incoming.map Prod.snd ↔ b ∈ f.successors p) ∧
          ∀ v p, (v, p) ∈ incoming → f.KnownOperand P p v := by
        rcases hmem b x hx with hx | ⟨rfl, rfl⟩
        · exact h.phis b x hx j incoming (hold b x hx ▸ hj) hin
        · obtain rfl : i = j := by simpa [hnew] using hj
          exact hphi incoming hin
      obtain ⟨hsome, hnodup, hpreds, hsource⟩ := hlist
      refine ⟨hsome, hnodup, fun p => by rw [successors_append]; exact hpreds p,
        fun v p hvp => ?_⟩
      have hedge : b ∈ f.successors p := (hpreds p).1 (List.mem_map_of_mem hvp)
      exact hg.knownOperand h (has_of_mem_successors hedge) (hsource v p hvp) }

end Append

/-! ### A new terminator -/

section Terminate

variable {t : Terminator} (hc : f.Has c) (hopen : f.termAt c = none)
include hc hopen

theorem extends_terminate : Extends f P (f.terminate c t) P where
  sig := rfl
  entry := rfl
  has b hb := has_terminate.2 hb
  inst _ _ hi := hi
  slots b := by simp
  code b := by simp
  closed b s hs := by
    have hne : c ≠ b := by
      rintro rfl
      simp [hopen] at hs
    rw [codeAt_terminate, termAt_terminate hc, if_neg hne]
    exact ⟨rfl, hs⟩
  parent _ _ := rfl

/-- The open block at the cursor, or one that is new by now, is left for new blocks. -/
theorem Grows.terminate {k : Function} {R : Parents} {w : Option BlockId} (hg : Grows w k R f P)
    (hw : k.Has c → w = some c) (hnew : ∀ b ∈ t.successors, ¬ k.Has b) (honward : t.successors ≠ []) :
    Grows w k R (f.terminate c t) P where
  toExtends := hg.toExtends.trans (extends_terminate hc hopen)
  layout := hg.layout
  frozen b hb hne := by
    obtain ⟨hcode, hterm⟩ := hg.frozen b hb hne
    have hcb : c ≠ b := by
      rintro rfl
      exact hne (hw hb).symm
    rw [codeAt_terminate, termAt_terminate hc, if_neg hcb]
    exact ⟨hcode, hterm⟩
  edge p b hb := by
    rw [successors_terminate hc] at hb
    split at hb
    · exact .inr (hnew b hb)
    · exact hg.edge p b hb
  onward b s hs := by
    rw [termAt_terminate hc] at hs
    split at hs
    · exact .inr (Option.some.inj hs ▸ honward)
    · exact hg.onward b s hs

/-- A terminator leads to blocks that are there, below their parents, and that no phi stands in; what
it reads is known. -/
theorem WellFormed.terminate (h : f.WellFormed P)
    (hsucc : ∀ b ∈ t.successors, f.Has b ∧ (∀ d, P b = some d → P.Below d c) ∧ f.NoPhi b)
    (hoperands : ∀ v ∈ t.operands, f.KnownOperand P c v) : (f.terminate c t).WellFormed P := by
  have hg : Extends f P (f.terminate c t) P := extends_terminate hc hopen
  have hnone : f.successors c = [] := successors_of_termAt_none hopen
  have hedge : ∀ p, ∀ b ∈ (f.terminate c t).successors p,
      b ∈ f.successors p ∨ (p = c ∧ b ∈ t.successors) := fun p b hb => by
    rw [successors_terminate hc] at hb
    split at hb
    · next heq => exact .inr ⟨heq.symm, hb⟩
    · exact .inl hb
  exact {
    entry := h.entry
    nodup := h.nodup
    mem_layout := fun b => (h.mem_layout b).trans has_terminate.symm
    whole := h.whole.terminate
    code := fun b x hx => h.code b x (codeAt_terminate ▸ hx)
    slots := fun b hb => h.slots b (slotsAt_terminate ▸ hb)
    parent := fun b d hb => (h.parent b d hb).imp has_terminate.2 has_terminate.2
    has_successor := fun p b hb => has_terminate.2 <| (hedge p b hb).elim (h.has_successor p b)
      fun hb => (hsucc b hb.2).1
    below := fun p b hb d hd => by
      rcases hedge p b hb with hb | ⟨rfl, hbt⟩
      · exact h.below p b hb d hd
      · exact (hsucc b hbt).2.1 d hd
    uses := fun b before x after i hsplit hi hin y hy => by
      rw [codeAt_terminate] at hsplit
      have hb : f.Has b := has_of_mem_codeAt (hsplit ▸ List.mem_append_cons_self)
      exact hg.uses h hb (h.uses b before x after i hsplit hi hin y hy)
    ends := fun b s hs v hv => by
      rw [termAt_terminate hc] at hs
      split at hs
      · next heq =>
        obtain rfl : t = s := by simpa using hs
        exact hg.knownOperand h (heq ▸ hc) (heq ▸ hoperands v hv)
      · exact hg.knownOperand h (has_of_termAt hs) (h.ends b s hs v hv)
    phis := fun b x hx i incoming hi hin => by
      rw [codeAt_terminate] at hx
      obtain ⟨hsome, hnodup, hpreds, hsource⟩ := h.phis b x hx i incoming hi hin
      refine ⟨hsome, hnodup, fun p => ?_, fun v p hvp => ?_⟩
      · rw [hpreds p]
        refine ⟨fun hb => ?_, fun hb => ?_⟩
        · rw [successors_terminate hc, if_neg]
          · exact hb
          · rintro rfl
            simp [hnone] at hb
        · rcases hedge p b hb with hb | ⟨rfl, hbt⟩
          · exact hb
          · exact absurd ((hsucc b hbt).2.2 x hx i hi) (by simp [hin])
      · have hedge : b ∈ f.successors p := (hpreds p).1 (List.mem_map_of_mem hvp)
        exact hg.knownOperand h (has_of_mem_successors hedge) (hsource v p hvp) }

end Terminate

/-! ### Finished graphs -/

/-- A phi stands in the code of its block. -/
theorem mem_codeAt_of_phi {i : Inst} {incoming : List (Operand × BlockId)} (hx : x ∈ f.instsAt b)
    (hi : f.inst? x = some i) (hin : i.kind.incoming? = some incoming) : x ∈ f.codeAt b := by
  rw [← slotsAt_append_codeAt] at hx
  refine (List.mem_append.1 hx).resolve_left fun hslot => ?_
  have halloc := allocates_of_mem_slotsAt hslot
  rw [allocates, hi] at halloc
  cases hk : i.kind <;> simp_all [InstKind.isAlloca, InstKind.incoming?]

namespace WellFormed

variable (h : f.WellFormed P)
include h

theorem dominates (hd : P.Below d b) : f.Dominates d b :=
  dominates_of_below (fun _ => h.entry_parent) h.below hd

theorem mem_predecessors {p : BlockId} : p ∈ f.predecessors b ↔ b ∈ f.successors p := by
  simp only [predecessors, List.mem_filter, List.contains_iff_mem, and_iff_right_iff_imp]
  exact fun hb => (h.mem_layout p).2 (has_of_mem_successors hb)

/-- What is known at the end of a block stands in a block that dominates it. -/
theorem exists_dominates (hy : f.Known P b y) : ∃ d, f.Dominates d b ∧ y ∈ f.instsAt d := by
  rcases hy with ⟨e, he, hy⟩ | ⟨d, hd, hy⟩
  · exact ⟨e, entry_dominates he b, mem_instsAt_of_mem_slotsAt hy⟩
  · exact ⟨d, h.dominates hd, mem_instsAt_of_mem_codeAt hy⟩

theorem uses_instsAt {before after : List InstId} {i : Inst}
    (hsplit : f.instsAt b = before ++ x :: after) (hi : f.inst? x = some i)
    (hin : i.kind.incoming? = none) (hy : Operand.inst y ∈ i.kind.operands) :
    y ∈ before ∨ ∃ d, d ≠ b ∧ f.Dominates d b ∧ y ∈ f.instsAt d := by
  -- A slot reads nothing, so the instruction stands in the code, behind all slots of the block.
  have hcode : ∃ front, before = f.slotsAt b ++ front ∧ f.codeAt b = front ++ x :: after := by
    rw [← slotsAt_append_codeAt] at hsplit
    rcases List.append_eq_append_iff.1 hsplit with ⟨front, hfront⟩ | ⟨rest, hslots, hrest⟩
    · exact ⟨front, hfront⟩
    · cases rest with
      | nil => exact ⟨[], by simpa using hslots.symm, by simpa using hrest.symm⟩
      | cons z rest =>
        obtain rfl : x = z := (List.cons_eq_cons.1 hrest).1
        have hslot := allocates_of_mem_slotsAt (hslots ▸ List.mem_append_cons_self : x ∈ f.slotsAt b)
        rw [allocates, hi] at hslot
        cases hk : i.kind <;> simp_all [InstKind.isAlloca, InstKind.operands]
  obtain ⟨front, rfl, hcode⟩ := hcode
  rcases h.uses b front x after i hcode hi hin y hy with ⟨e, he, hy⟩ | hy | ⟨d, hne, hd, hy⟩
  · by_cases heb : e = b
    · exact .inl (List.mem_append_left _ (heb ▸ hy))
    · exact .inr ⟨e, heb, entry_dominates he b, mem_instsAt_of_mem_slotsAt hy⟩
  · exact .inl (List.mem_append_right _ hy)
  · exact .inr ⟨d, hne, h.dominates hd, mem_instsAt_of_mem_codeAt hy⟩

/-- **A well-formed graph is strict.** -/
theorem isStrict : f.IsStrict where
  inst _ _ _ _ _ _ hsplit hi hin _ hy := h.uses_instsAt hsplit hi hin hy
  term b _ t ht _ hy := h.exists_dominates (h.ends b t ht _ hy _ rfl)
  phi b x hx i incoming hi hin := by
    obtain ⟨-, hnodup, hmem, -⟩ := h.phis b x (mem_codeAt_of_phi hx hi hin) i incoming hi hin
    exact ⟨hnodup, fun p => (hmem p).trans h.mem_predecessors.symm⟩
  source b x hx i incoming hi hin y p hyp := by
    obtain ⟨-, -, -, hsource⟩ := h.phis b x (mem_codeAt_of_phi hx hi hin) i incoming hi hin
    exact h.exists_dominates (hsource _ p hyp y rfl)

/-- No phi stands in the entry. -/
theorem not_phi_entry (he : f.entry? = some e) (hx : x ∈ f.instsAt e) {i : Inst}
    (hi : f.inst? x = some i) : i.kind.incoming? = none := by
  cases hin : i.kind.incoming? with
  | none => rfl
  | some incoming =>
    exact absurd (h.noPhi (h.entry_parent he) x (mem_codeAt_of_phi hx hi hin) i hi) (by simp [hin])

end WellFormed

end Function

end TreeFlow
