import Mathlib.Data.List.Nodup
import TreeFlow.Proofs.Lowering.Layout

/-!
# Graphs that sprout from a block

The code of an expression is written to the block that is open at the cursor, and to new blocks. While it is
written, the blocks that are still open are the **ends** of what has sprouted from the first one
(`Function.Sprouts`); they are only ever entered from there. An operation adds to one end, and may make
another one or close one. What sprouts from an end of something that sprouts, sprouts from its beginning
(`Function.Sprouts.trans`), and where one end is left, everything in between is a region
(`Function.Sprouts.encloses`).

Nothing is assumed of the graph but that it is sound where the cursor is (`Builder.At`).
-/

namespace TreeFlow

namespace Function

variable {f g h k : Function} {b c d e : BlockId} {es vs : List BlockId} {t : Terminator}

/-! ### What sprouts from a block -/

/-- Between two stages of a function, code was written to the block `c` and to new blocks, of which the
blocks `es` are still open. -/
structure Sprouts (g : Function) (c : BlockId) (h : Function) (es : List BlockId) : Prop where
  precedes : g.Precedes h
  frozen : ∀ b, g.Has b → b ≠ c → h.codeAt b = g.codeAt b ∧ h.termAt b = g.termAt b
  isEnd : ∀ e ∈ es, g.Since c e ∧ h.Has e ∧ h.termAt e = none
  nodup : es.Nodup
  closed : ∀ b, g.Since c b → h.Has b → b ∉ es → (h.termAt b).isSome
  onward : ∀ b t, h.termAt b = some t → g.termAt b = some t ∨
    (∀ op, t ≠ .ret op) ∧ ∀ e ∈ t.successors, ¬ g.Has e ∧ h.Has e

theorem Precedes.refl (f : Function) : f.Precedes f :=
  ⟨fun _ h => h, fun _ _ h => h, fun _ => List.prefix_refl _, fun _ _ h => ⟨rfl, h⟩⟩

namespace Sprouts

/-- Nothing was written. -/
theorem refl (hc : g.Has c) (hopen : g.termAt c = none) : g.Sprouts c g [c] where
  precedes := .refl g
  frozen _ _ _ := ⟨rfl, rfl⟩
  isEnd e he := by
    obtain rfl := List.mem_singleton.1 he
    exact ⟨.inl rfl, hc, hopen⟩
  nodup := List.nodup_singleton c
  closed b hb hhas hne := by
    rcases hb with rfl | hnew
    · exact absurd (List.mem_singleton_self b) hne
    · exact absurd hhas hnew
  onward _ _ ht := .inl ht

theorem perm (hs : g.Sprouts c h es) (hp : es.Perm vs) : g.Sprouts c h vs where
  precedes := hs.precedes
  frozen := hs.frozen
  isEnd e he := hs.isEnd e (hp.mem_iff.2 he)
  nodup := hp.nodup_iff.1 hs.nodup
  closed b hb hhas hne := hs.closed b hb hhas fun he => hne (hp.mem_iff.1 he)
  onward := hs.onward

/-- What sprouts from one of the ends. -/
theorem trans (hgh : g.Sprouts c h (e :: es)) (hhk : h.Sprouts e k vs) : g.Sprouts c k (vs ++ es) := by
  obtain ⟨hsince, -, -⟩ := hgh.isEnd e List.mem_cons_self
  have hne : ∀ b, g.Has b → b ≠ c → b ≠ e := by
    rintro b hb hbc rfl
    exact hsince.elim hbc fun hnew => hnew hb
  obtain ⟨hmem, hes⟩ := List.nodup_cons.1 hgh.nodup
  refine ⟨hgh.precedes.trans hhk.precedes, fun b hb hbc => ?_, fun v hv => ?_, ?_, fun b hb hhas hend => ?_,
    fun b t ht => ?_⟩
  · obtain ⟨hcode, hterm⟩ := hgh.frozen b hb hbc
    obtain ⟨hcode', hterm'⟩ := hhk.frozen b (hgh.precedes.has b hb) (hne b hb hbc)
    exact ⟨hcode'.trans hcode, hterm'.trans hterm⟩
  · rcases List.mem_append.1 hv with hv | hv
    · obtain ⟨hplace, hhas, hopen⟩ := hhk.isEnd v hv
      refine ⟨?_, hhas, hopen⟩
      rcases hplace with rfl | hnew
      · exact hsince
      · exact .inr fun hold => hnew (hgh.precedes.has v hold)
    · obtain ⟨hplace, hhas, hopen⟩ := hgh.isEnd v (List.mem_cons_of_mem e hv)
      obtain ⟨-, hterm⟩ := hhk.frozen v hhas (by rintro rfl; exact hmem hv)
      exact ⟨hplace, hhk.precedes.has v hhas, hterm.trans hopen⟩
  · -- The other ends were there when the first one sprouted.
    refine List.nodup_append'.2 ⟨hhk.nodup, hes, fun v hv hv' => ?_⟩
    rcases (hhk.isEnd v hv).1 with rfl | hnew
    · exact hmem hv'
    · exact hnew (hgh.isEnd v (List.mem_cons_of_mem e hv')).2.1
  · have hvs : b ∉ vs := fun hb => hend (List.mem_append_left es hb)
    by_cases hplace : h.Since e b
    · exact hhk.closed b hplace hhas hvs
    · obtain ⟨hbe, hold⟩ : b ≠ e ∧ h.Has b := by simpa [Since, not_or] using hplace
      have hes' : b ∉ e :: es := fun hb => (List.mem_cons.1 hb).elim hbe fun hb =>
        hend (List.mem_append_right vs hb)
      obtain ⟨t, ht⟩ := Option.isSome_iff_exists.1 (hgh.closed b hb hold hes')
      exact Option.isSome_of_eq_some (hhk.precedes.closed b t ht).2
  · rcases hhk.onward b t ht with hold | ⟨hret, htargets⟩
    · refine (hgh.onward b t hold).imp_right fun ⟨hret, htargets⟩ => ⟨hret, fun e he => ?_⟩
      exact (htargets e he).imp_right (hhk.precedes.has e)
    · exact .inr ⟨hret, fun e he => (htargets e he).imp_left fun hnew hold => hnew (hgh.precedes.has e hold)⟩

/-- An instruction more at the end of the block. -/
theorem append {i : Inst} (hw : g.Whole) (hc : g.Has c) (hopen : g.termAt c = none)
    (hi : i.kind.isAlloca = false) : g.Sprouts c (g.append c i) [c] := by
  have hcode : ∀ b, (g.append c i).codeAt b = if c = b then g.codeAt b ++ [g.nextInst] else g.codeAt b :=
    fun b => (slots_code_append hw hc hi).2
  have hother : ∀ b, b ≠ c → (g.append c i).codeAt b = g.codeAt b := fun b hb => by
    rw [hcode, if_neg (Ne.symm hb)]
  refine ⟨⟨fun b => has_append.2, fun x i hi => inst?_append_of_some hi, fun b => ?_, fun b t ht => ?_⟩,
    fun b _ hb => ⟨hother b hb, termAt_append⟩, fun e he => ?_, List.nodup_singleton c,
    fun b hb hhas hne => ?_, fun b t ht => .inl (termAt_append ▸ ht)⟩
  · rw [hcode]
    split
    · exact List.prefix_append _ _
    · exact List.prefix_refl _
  · refine ⟨hother b ?_, termAt_append.trans ht⟩
    rintro rfl
    exact nomatch hopen.symm.trans ht
  · obtain rfl := List.mem_singleton.1 he
    exact ⟨.inl rfl, has_append.2 hc, termAt_append.trans hopen⟩
  · rcases hb with rfl | hnew
    · exact absurd (List.mem_singleton_self b) hne
    · exact absurd (has_append.1 hhas) hnew

/-- A stack slot more, somewhere. -/
theorem reserve {ty : Ty} (hw : g.Whole) (he : g.Has e) (hc : g.Has c) (hopen : g.termAt c = none) :
    g.Sprouts c (g.reserve e ty) [c] := by
  have hcode : ∀ b, (g.reserve e ty).codeAt b = g.codeAt b := fun b => (slots_code_reserve hw he).2
  refine ⟨⟨fun b => has_reserve.2, fun x i hi => inst?_reserve_of_some hi, fun b => ?_, fun b t ht => ?_⟩,
    fun b _ _ => ⟨hcode b, termAt_reserve⟩, fun d hd => ?_, List.nodup_singleton c,
    fun b hb hhas hne => ?_, fun b t ht => .inl (termAt_reserve ▸ ht)⟩
  · exact (hcode b).symm ▸ List.prefix_refl _
  · exact ⟨hcode b, termAt_reserve.trans ht⟩
  · obtain rfl := List.mem_singleton.1 hd
    exact ⟨.inl rfl, has_reserve.2 hc, termAt_reserve.trans hopen⟩
  · rcases hb with rfl | hnew
    · exact absurd (List.mem_singleton_self b) hne
    · exact absurd (has_reserve.1 hhas) hnew

/-- A new block is an end, too. -/
theorem addBlock {layout : List BlockId} (hc : g.Has c) (hopen : g.termAt c = none) :
    g.Sprouts c (g.addBlock layout) [c, g.nextBlock] := by
  have hnew : (g.addBlock layout).termAt g.nextBlock = none :=
    termAt_addBlock.trans (termAt_of_not_has g.not_has_nextBlock)
  refine ⟨⟨fun b hb => has_addBlock.2 (.inl hb), fun _ _ hi => hi, fun b => ?_, fun b t ht => ?_⟩,
    fun b _ _ => ⟨codeAt_addBlock, termAt_addBlock⟩, fun e he => ?_, ?_, fun b hb hhas hne => ?_,
    fun b t ht => .inl (termAt_addBlock ▸ ht)⟩
  · exact codeAt_addBlock.symm ▸ List.prefix_refl _
  · exact ⟨codeAt_addBlock, termAt_addBlock.trans ht⟩
  · rcases List.mem_pair.1 he with rfl | rfl
    · exact ⟨.inl rfl, has_addBlock.2 (.inl hc), termAt_addBlock.trans hopen⟩
    · exact ⟨.inr g.not_has_nextBlock, has_addBlock.2 (.inr rfl), hnew⟩
  · have hne : c ≠ g.nextBlock := by
      rintro rfl
      exact g.not_has_nextBlock hc
    simpa using hne
  · obtain ⟨hbc, hbn⟩ : b ≠ c ∧ b ≠ g.nextBlock := by simpa using hne
    rcases hb with rfl | hb
    · exact absurd rfl hbc
    · exact absurd ((has_addBlock.1 hhas).resolve_right hbn) hb

/-- An end is closed with jumps to blocks that have sprouted. -/
theorem terminate (hs : g.Sprouts c h (e :: es)) (hret : ∀ op, t ≠ .ret op)
    (htargets : ∀ b ∈ t.successors, ¬ g.Has b ∧ h.Has b) : g.Sprouts c (h.terminate e t) es := by
  obtain ⟨hsince, hhas, hopen⟩ := hs.isEnd e List.mem_cons_self
  obtain ⟨hmem, hes⟩ := List.nodup_cons.1 hs.nodup
  have hterm : ∀ b, (h.terminate e t).termAt b = if e = b then some t else h.termAt b :=
    fun b => termAt_terminate hhas
  have hother : ∀ b, b ≠ e → (h.terminate e t).termAt b = h.termAt b := fun b hb => by
    rw [hterm, if_neg (Ne.symm hb)]
  refine ⟨⟨fun b hb => has_terminate.2 (hs.precedes.has b hb), hs.precedes.inst, fun b => ?_,
    fun b t' ht => ?_⟩, fun b hb hbc => ?_, fun v hv => ?_, hes, fun b hb hhas' hne => ?_, fun b t' ht => ?_⟩
  · rw [codeAt_terminate]
    exact hs.precedes.code b
  · obtain ⟨hcode, ht'⟩ := hs.precedes.closed b t' ht
    refine ⟨codeAt_terminate.trans hcode, (hother b ?_).trans ht'⟩
    rintro rfl
    exact nomatch hopen.symm.trans ht'
  · obtain ⟨hcode, ht⟩ := hs.frozen b hb hbc
    refine ⟨codeAt_terminate.trans hcode, (hother b ?_).trans ht⟩
    rintro rfl
    exact hsince.elim hbc fun hnew => hnew hb
  · obtain ⟨hplace, hv', hopen'⟩ := hs.isEnd v (List.mem_cons_of_mem e hv)
    refine ⟨hplace, has_terminate.2 hv', (hother v ?_).trans hopen'⟩
    rintro rfl
    exact hmem hv
  · rw [hterm]
    split
    · rfl
    · next hbe =>
      exact hs.closed b hb (has_terminate.1 hhas') fun hb' => (List.mem_cons.1 hb').elim (Ne.symm hbe) hne
  · rw [hterm] at ht
    split at ht
    · obtain rfl := Option.some.inj ht
      exact .inr ⟨hret, fun b hb => (htargets b hb).imp_right has_terminate.2⟩
    · refine (hs.onward b t' ht).imp_right fun ⟨hret, htargets⟩ => ⟨hret, fun e he => ?_⟩
      exact (htargets e he).imp_right has_terminate.2

/-- **What has sprouted from a block and has one end is a region** of whatever becomes of the function, unless
slots are reserved in one of the new blocks. -/
theorem encloses (hs : g.Sprouts c h [d]) (hc : g.Has c) (hopen : g.termAt c = none) (hf : h.Precedes f)
    (hplain : ∀ b, ¬ g.Has b → f.instsAt b = f.codeAt b) : g.Encloses h f c d := by
  obtain ⟨hsince, hhas, hopen'⟩ := hs.isEnd d List.mem_cons_self
  have hclosed : ∀ b, g.Since c b → h.Has b → b ≠ d → ∃ t, h.termAt b = some t ∧ f.termAt b = some t ∧
      f.codeAt b = h.codeAt b ∧ (∀ op, t ≠ .ret op) ∧ ∀ e ∈ t.successors, ¬ g.Has e ∧ h.Has e := by
    intro b hb hhas hne
    obtain ⟨t, ht⟩ := Option.isSome_iff_exists.1 (hs.closed b hb hhas (by simpa using hne))
    obtain ⟨hcode, ht'⟩ := hf.closed b t ht
    have hnone : g.termAt b = none := by
      rcases hb with rfl | hnew
      · exact hopen
      · exact termAt_of_not_has hnew
    exact ⟨t, ht, ht', hcode, (hs.onward b t ht).resolve_left (by simp [hnone])⟩
  exact {
    first := hs.precedes
    second := hf
    has := hc
    isOpen := hopen
    has_end := hhas
    isOpen_end := hopen'
    since_end := hsince
    code := fun b hb hhas hne => by
      obtain ⟨t, -, -, hcode, -⟩ := hclosed b hb hhas hne
      exact hcode
    exits := fun b hb hhas hne e he => by
      obtain ⟨t, ht, ht', -, -, htargets⟩ := hclosed b hb hhas hne
      obtain ⟨t', ht'', he⟩ := mem_successors_iff.1 he
      obtain rfl := Option.some.inj (ht'.symm.trans ht'')
      exact ⟨Option.isSome_of_eq_some ht, htargets e he⟩
    stays := fun b hb hhas hne op hret => by
      obtain ⟨t, -, ht', -, hnot, -⟩ := hclosed b hb hhas hne
      exact hnot op (Option.some.inj (ht'.symm.trans hret))
    plain := fun b hnew _ => hplain b hnew }

end Sprouts

end Function

/-! ### Where the cursor is -/

namespace Builder

variable {b b' b'' : Builder} {id : FuncId} {g h : Function} {c d e : BlockId} {es : List BlockId}

/-- The cursor is at the open block `c` of the function `g`, which has the position `id`. -/
structure At (b : Builder) (id : FuncId) (g : Function) (c : BlockId) : Prop where
  builds : b.Builds id g
  block : b.block = some c
  has : g.Has c
  isOpen : g.termAt c = none
  whole : g.Whole
  has_entry : ∀ e, g.entry? = some e → g.Has e

namespace At

variable (hb : b.At id g c)
include hb

theorem function? : b.function? = some g := by
  rw [Builder.function?, hb.builds.1]
  exact hb.builds.2

theorem unique (hb' : b.At id h d) : g = h ∧ c = d :=
  ⟨Option.some.inj (hb.function?.symm.trans hb'.function?), Option.some.inj (hb.block.symm.trans hb'.block)⟩

theorem openAt : g.openAt b.block = some c := Function.openAt_eq_some_iff.2 ⟨hb.block, hb.isOpen⟩

theorem ready : g.ready b.block = (c, g) := Function.ready_of_open hb.openAt

theorem has_cursor : ∀ d, b.block = some d → g.Has d := fun _ hd =>
  Option.some.inj (hb.block.symm.trans hd) ▸ hb.has

theorem spot? (f : Function) : b.spot? f = some (f.behind g c) := by
  rw [Builder.spot?, hb.function?]
  exact congrArg (Option.map _) hb.openAt

theorem sprouts : g.Sprouts c g [c] := .refl hb.has hb.isOpen

/-- The function has been written to, and the cursor is at an open block of it. -/
theorem write (hd : h.Has d) (hopen : h.termAt d = none) (hw : h.Whole)
    (he : ∀ e, h.entry? = some e → h.Has e) : (b.write id h (some d)).At id h d :=
  ⟨hb.builds.write, rfl, hd, hopen, hw, he⟩

/-- What is written depends on the function and the cursor only. -/
theorem of_same (hfunc : b'.func = b.func) (hblock : b'.block = b.block)
    (hfunctions : b'.mod.functions = b.mod.functions) : b'.At id g c where
  builds := ⟨hfunc.trans hb.builds.1, by
    rw [Module.function?, hfunctions]
    exact hb.builds.2⟩
  block := hblock.trans hb.block
  has := hb.has
  isOpen := hb.isOpen
  whole := hb.whole
  has_entry := hb.has_entry

/-- An instruction is emitted at the end of the block. -/
theorem insert_eq (kind : InstKind) (ty : Ty) : Build.insert kind ty b =
    .ok (.inst g.nextInst, b.write id (g.append c ⟨kind, ty⟩) (some c)) := by
  rw [Build.insert_eq hb.builds hb.has_cursor, hb.ready]

theorem terminate_eq (t : Terminator) :
    Build.terminate t b = .ok ((), b.write id (g.terminate c t) (some c)) := by
  rw [Build.terminate_eq hb.builds hb.has_cursor, hb.ready]

theorem append {i : Inst} (hi : i.kind.isAlloca = false) :
    (b.write id (g.append c i) (some c)).At id (g.append c i) c ∧ g.Sprouts c (g.append c i) [c] := by
  have hs := Function.Sprouts.append hb.whole hb.has hb.isOpen hi
  refine ⟨hb.write (hs.precedes.has c hb.has) (Function.termAt_append.trans hb.isOpen)
    (hb.whole.append hb.has) fun e he => hs.precedes.has e (hb.has_entry e he), hs⟩

/-- A block is added, and the cursor stays where it is. -/
theorem newBlock_eq : ∃ f, Build.newBlock b = .ok (g.nextBlock, b.write id f (some c)) ∧
    (b.write id f (some c)).At id f c ∧ g.Sprouts c f [c, g.nextBlock] ∧ ∀ d, f.codeAt d = g.codeAt d := by
  refine ⟨g.addBlock (g.layout ++ [g.nextBlock]), by rw [Build.newBlock_eq hb.builds, hb.block],
    hb.write (Function.has_addBlock.2 (.inl hb.has)) (Function.termAt_addBlock.trans hb.isOpen)
      hb.whole.addBlock fun e he => ?_, .addBlock hb.has hb.isOpen,
    fun _ => Function.codeAt_addBlock⟩
  -- Where there was no entry, the new block is one.
  cases hentry : g.entry? with
  | none =>
    have hnil : g.layout = [] := List.head?_eq_none_iff.1 hentry
    obtain rfl : g.nextBlock = e := by simpa [Function.entry?, Function.addBlock, hnil] using he
    exact Function.has_addBlock.2 (.inr rfl)
  | some d =>
    have hlayout : (g.layout ++ [g.nextBlock]).head? = some d := by
      simp only [Function.entry?] at hentry
      simp [hentry]
    obtain rfl : d = e := Option.some.inj (hlayout.symm.trans he)
    exact Function.has_addBlock.2 (.inl (hb.has_entry d hentry))

end At

/-- Where there is an open block at the cursor, code has sprouted from it, and there is one at the cursor
again. No other block is left open. -/
def Sprouts (b b' : Builder) : Prop :=
  ∀ id g c, b.At id g c → ∃ h d, b'.At id h d ∧ g.Sprouts c h [d]

/-- No code was written. -/
theorem Sprouts.of_same (hfunc : b'.func = b.func) (hblock : b'.block = b.block)
    (hfunctions : b'.mod.functions = b.mod.functions) : b.Sprouts b' := fun _ g c hb =>
  ⟨g, c, hb.of_same hfunc hblock hfunctions, hb.sprouts⟩

theorem Sprouts.refl (b : Builder) : b.Sprouts b := .of_same rfl rfl rfl

theorem Sprouts.trans (hb : b.Sprouts b') (hb' : b'.Sprouts b'') : b.Sprouts b'' := fun id g c h => by
  obtain ⟨g', c', h', hs⟩ := hb id g c h
  obtain ⟨g'', c'', h'', hs'⟩ := hb' id g' c' h'
  exact ⟨g'', c'', h'', hs.trans hs'⟩

/-- Code has sprouted from the block `c₀` of the stage `g₀`. The cursor is at the end `c` of it, and the
blocks `es` are ends, too. -/
structure Among (b : Builder) (id : FuncId) (g₀ : Function) (c₀ : BlockId) (g : Function) (c : BlockId)
    (es : List BlockId) : Prop extends b.At id g c where
  sprouts : g₀.Sprouts c₀ g (c :: es)

namespace Among

variable {g₀ : Function} {c₀ : BlockId} {vs : List BlockId} {t : Terminator}

theorem of_at (hb : b.At id g c) : b.Among id g c g c [] := ⟨hb, hb.sprouts⟩

variable (hb : b.Among id g₀ c₀ g c es)
include hb

/-- Code sprouts from the end at the cursor. -/
theorem grow (hs : b.Sprouts b') : ∃ h d, b'.Among id g₀ c₀ h d es ∧ g.Sprouts c h [d] := by
  obtain ⟨h, d, hb', hs⟩ := hs id g c hb.toAt
  exact ⟨h, d, ⟨hb', hb.sprouts.trans hs⟩, hs⟩

/-- A new block is an end. -/
theorem newBlock : ∃ f, Build.newBlock b = .ok (g.nextBlock, b.write id f (some c)) ∧
    (b.write id f (some c)).Among id g₀ c₀ f c (g.nextBlock :: es) ∧ ¬ g₀.Has g.nextBlock ∧
    g.Sprouts c f [c, g.nextBlock] ∧ ∀ d, f.codeAt d = g.codeAt d := by
  obtain ⟨f, hrun, hb', hs, hcode⟩ := hb.newBlock_eq
  exact ⟨f, hrun, ⟨hb', hb.sprouts.trans hs⟩,
    fun hold => g.not_has_nextBlock (hb.sprouts.precedes.has _ hold), hs, hcode⟩

/-- The cursor goes to another end. -/
theorem moveTo (he : es.Perm (e :: vs)) : (b.setBlock e).Among id g₀ c₀ g e (c :: vs) := by
  have hs : g₀.Sprouts c₀ g (e :: c :: vs) := hb.sprouts.perm ((he.cons c).trans (.swap e c vs))
  obtain ⟨-, hhas, hopen⟩ := hs.isEnd e List.mem_cons_self
  exact ⟨⟨hb.builds, rfl, hhas, hopen, hb.whole, hb.has_entry⟩, hs⟩

/-- The end at the cursor is closed, and the cursor goes to another one. -/
theorem leave (he : es.Perm (e :: vs)) (hret : ∀ op, t ≠ .ret op)
    (htargets : ∀ d ∈ t.successors, ¬ g₀.Has d ∧ d ∈ es) :
    ((b.write id (g.terminate c t) (some c)).setBlock e).Among id g₀ c₀ (g.terminate c t) e vs := by
  have hends : ∀ d ∈ es, g.Has d := fun d hd => (hb.sprouts.isEnd d (List.mem_cons_of_mem c hd)).2.1
  have hs := (hb.sprouts.terminate hret fun d hd => (htargets d hd).imp_right (hends d)).perm he
  obtain ⟨-, hhas, hopen⟩ := hs.isEnd e List.mem_cons_self
  exact ⟨⟨hb.builds.write, rfl, hhas, hopen, hb.whole.terminate,
    fun d hd => Function.has_terminate.2 (hb.has_entry d hd)⟩, hs⟩

end Among

end Builder

/-! ### Operations -/

namespace Builder

/-- An instruction at the cursor, and a stack slot, leave the block there open. -/
theorem Takes.sprouts {b b' : Builder} (h : b.Takes b') : b.Sprouts b' := by
  cases h with
  | nothing => exact .refl b
  | @insert _ kind ty v hkind h =>
    intro id g c hb
    cases (hb.insert_eq kind ty).symm.trans h
    exact ⟨_, c, hb.append hkind⟩
  | @alloca _ ty v h =>
    intro id g c hb
    cases hentry : g.entry? with
    | none =>
      simp only [Build.alloca, bind, StateT.bind, Build.function_eq hb.builds, Except.bind, hentry] at h
      cases h
    | some e =>
      cases (Build.alloca_eq hb.builds hb.whole hentry ty).symm.trans h
      have he := hb.has_entry e hentry
      have hs : g.Sprouts c (g.reserve e ty) [c] := .reserve hb.whole he hb.has hb.isOpen
      refine ⟨_, c, ?_, hs⟩
      rw [hb.block]
      exact hb.write (hs.precedes.has c hb.has) (Function.termAt_reserve.trans hb.isOpen)
        (hb.whole.reserve he) fun e he => hs.precedes.has e (hb.has_entry e he)

end Builder

end TreeFlow
