import TreeFlow.Proofs.Lowering.Growth
import TreeFlow.Proofs.Lowering.Reporting
import TreeFlow.Proofs.Lowering.Statement

/-!
# Advancing through a body

The single steps that the code of structured statements is written with, each as a way from a place to
another one (`Place.Proceeds`). Blocks that were made for later wait, empty and open, until the cursor gets
there (`Place.Prepares`). Where lowering a part fails, an error has been queued since the place before
(`Place.Errs`), and it stays in the queue.
-/

namespace TreeFlow.Lower.Place

variable {α : Type} {env : Env} {line : Nat} {p q r : Place} {m : Lower α} {f : Function}
  {b c d : BlockId} {bs cs V W : List BlockId} {v : Operand} {sp : Spot} {new : List Diagnostic}

/-! ### Ways between places -/

/-- From one place to another one, an error was queued. -/
def Errs (p q : Place) : Prop := p.state.Errs q.state

/-- From one place to another one, code was only written to new blocks, to the open block at the cursor,
and to the blocks `W`, and diagnostics were only queued. -/
structure Proceeds (W : List BlockId) (p q : Place) : Prop where
  continues : p.Continues q
  advances : Site.Advances W p.toSite q.toSite
  queues : ∃ new, p.state.Queues q.state new

namespace Proceeds

theorem refl (W : List BlockId) (p : Place) : Proceeds W p p :=
  ⟨Std.Refl.refl p, .refl W _, [], .refl _⟩

theorem mono (h : Proceeds V p q) (hVW : V ⊆ W) : Proceeds W p q :=
  ⟨h.continues, h.advances.mono hVW, h.queues⟩

theorem trans (hpq : Proceeds W p q) (hqr : Proceeds W q r) : Proceeds W p r := by
  obtain ⟨_, hnew⟩ := hpq.queues
  obtain ⟨_, hmore⟩ := hqr.queues
  exact ⟨IsTrans.trans _ _ _ hpq.continues hqr.continues, hpq.advances.trans hqr.advances, _,
    hnew.trans hmore⟩

/-- A step that writes to no waiting block, and then a way. -/
theorem after (hqr : Proceeds W q r) (hpq : Proceeds [] p q) : Proceeds W p r :=
  (hpq.mono (List.nil_subset _)).trans hqr

/-- The cursor gets to a waiting block, and then a way follows. -/
theorem enters (hpq : Proceeds [b] p q) (hqr : Proceeds W q r) : Proceeds (b :: W) p r :=
  (hpq.mono (List.cons_subset_cons b (List.nil_subset W))).trans (hqr.mono (List.subset_cons_self b W))

/-- Blocks that were made on the way do not matter. -/
theorem forget (h : Proceeds W p q) (hnew : ∀ b ∈ W, ¬ p.function.Has b) : Proceeds [] p q :=
  ⟨h.continues, Site.Advances.forget (V := W) (by rw [List.append_nil]; exact h.advances) hnew, h.queues⟩

theorem loops (h : Proceeds W p q) : q.state.loops = p.state.loops := h.continues.loops

/-- What becomes of a later place becomes of an earlier one. -/
theorem becomes (hpq : Proceeds V p q) (h : Site.Becomes W q.toSite f) :
    Site.Becomes (V ++ W) p.toSite f :=
  (h.mono (List.subset_append_right V W)).of_advances (hpq.advances.mono (List.subset_append_left V W))

theorem waits (hpq : Proceeds [] p q) (h : Site.Waits W p.toSite) : Site.Waits W q.toSite :=
  h.advance hpq.advances fun _ _ => List.not_mem_nil

end Proceeds

theorem Errs.after (h : q.Errs r) (hpq : Proceeds W p q) : p.Errs r := by
  obtain ⟨new, hnew⟩ := hpq.queues
  exact hnew.errs h

theorem Errs.before (h : p.Errs q) (hqr : Proceeds W q r) : p.Errs r := by
  obtain ⟨more, hmore⟩ := hqr.queues
  exact State.Errs.queues h hmore

/-- A step has failed, and an error was queued before. -/
def Breaks (p : Place) (t : State) : Prop := ∃ q : Place, q.state = t ∧ p.Proceeds [] q ∧ p.Errs q

theorem Breaks.after {t : State} (h : q.Breaks t) (hpq : p.Proceeds [] q) : p.Breaks t := by
  obtain ⟨r, hr, hqr, herrs⟩ := h
  exact ⟨r, hr, hpq.trans hqr, herrs.after hpq⟩

/-- What is known of failing behind a way is known of it where the way began. -/
theorem runs_after {done : α → State → Prop} (hpq : p.Proceeds [] q)
    (h : Runs m env q.state done q.Breaks) : Runs m env q.state done p.Breaks :=
  Runs.imp h (fun _ _ h => h) fun _ h => h.after hpq

/-- A step that adds code at the cursor, or queues an error. -/
theorem runs_of_inserts {post : α → Place → Prop} (h : p.Inserts env m post)
    (hm : Regular (.loose env) true m) :
    Runs m env p.state
      (fun a t => ∃ q : Place, q.state = t ∧ p.Proceeds [] q ∧ p.toSite.Spans q.toSite ∧
        m env p.state = (.done a, q.state) ∧ post a q)
      p.Breaks := by
  refine Runs.imp (Runs.with_eq h) ?_ ?_
  · rintro a _ ⟨hrun, q, rfl, hpq, ha⟩
    exact ⟨q, rfl, ⟨hpq.toContinues, hpq.spans.advances, hm.exists_queues hrun⟩, hpq.spans, hrun, ha⟩
  · rintro _ ⟨hrun, q, rfl, hpq⟩
    obtain ⟨new, hnew, herror⟩ := hm.exists_error hrun
    exact ⟨q, rfl, ⟨hpq.toContinues, hpq.spans.advances, new, hnew⟩, new, hnew, herror⟩

/-! ### The same code in another state -/

section Alike

variable {p' q' : Place} (hp : p.Alike p') (hq : q.Alike q')

include hp in
theorem Alike.openBlock : p'.openBlock = p.openBlock := by
  rw [Site.openBlock, Site.openBlock, hp.function, hp.block]

include hp in
theorem Alike.spot (f : Function) : p'.spot f = p.spot f := by
  rw [Site.spot, Site.spot, hp.openBlock, hp.function]

include hp in
theorem Alike.waits (h : Site.Waits W p.toSite) : Site.Waits W p'.toSite := by
  intro b hb
  rw [hp.function, hp.openBlock]
  exact h b hb

include hq in
theorem Alike.becomes (h : Site.Becomes W q'.toSite f) : Site.Becomes W q.toSite f where
  precedes := hq.function ▸ h.precedes
  idle b := by
    rw [← hq.function, ← hq.openBlock]
    exact h.idle b
  entry := hq.function ▸ h.entry
  plain := h.plain

include hp hq

theorem Alike.advances (h : Site.Advances W p'.toSite q.toSite) : Site.Advances W p.toSite q'.toSite where
  id := by rw [hq.id, h.id, hp.id]
  ext := by
    rw [hq.function, hq.parents, ← hp.function, ← hp.parents]
    exact h.ext
  frozen b := by
    rw [hq.function, ← hp.function, ← hp.openBlock]
    exact h.frozen b
  place d := by
    rw [hq.openBlock, ← hp.function, ← hp.openBlock]
    exact h.place d

theorem Alike.queues (h : p'.state.Queues q.state new) : p.state.Queues q'.state new := by
  rw [State.Queues, hq.diags, ← hp.diags]
  exact h

theorem Alike.errs (h : p'.Errs q) : p.Errs q' := by
  obtain ⟨new, hnew, herror⟩ := h
  exact ⟨new, hp.queues hq hnew, herror⟩

theorem Alike.proceeds (h : Proceeds W p' q) (hcontinues : p.Continues q') : Proceeds W p q' := by
  obtain ⟨new, hnew⟩ := h.queues
  exact ⟨hcontinues, hp.advances hq h.advances, new, hp.queues hq hnew⟩

end Alike

/-! ### Waiting blocks -/

/-- The block waits for its code: it is empty and open, and the cursor is elsewhere. -/
structure Awaits (p : Place) (b : BlockId) : Prop where
  target : p.Target b
  code : p.function.codeAt b = []
  isOpen : p.function.termAt b = none
  elsewhere : p.openBlock ≠ some b

theorem Awaits.proceed (h : p.Awaits b) (hpq : p.Proceeds W q) (hb : b ∉ W) : q.Awaits b := by
  obtain ⟨hcode, hterm⟩ := hpq.advances.frozen b h.target.has h.elsewhere hb
  exact {
    target := hpq.continues.target h.target
    code := hcode.trans h.code
    isOpen := hterm.trans h.isOpen
    elsewhere := fun heq => (hpq.advances.place b heq h.target.has).elim h.elsewhere hb }

/-- On the way from one place to another one some blocks were made, which wait there. -/
structure Prepares (bs : List BlockId) (p q : Place) : Prop where
  proceeds : p.Proceeds [] q
  nodup : bs.Nodup
  fresh : ∀ b ∈ bs, ¬ p.function.Has b
  awaits : ∀ b ∈ bs, q.Awaits b

namespace Prepares

theorem nil (h : p.Proceeds [] q) : Prepares [] p q :=
  ⟨h, List.nodup_nil, fun _ h => absurd h List.not_mem_nil, fun _ h => absurd h List.not_mem_nil⟩

theorem perm (h : Prepares bs p q) (hperm : bs.Perm cs) : Prepares cs p q :=
  ⟨h.proceeds, hperm.nodup_iff.1 h.nodup, fun b hb => h.fresh b (hperm.mem_iff.2 hb),
    fun b hb => h.awaits b (hperm.mem_iff.2 hb)⟩

theorem target (h : Prepares bs p q) (hb : b ∈ bs) : q.Target b := (h.awaits b hb).target

theorem proceed (h : Prepares bs p q) (hqr : q.Proceeds [] r) : Prepares bs p r :=
  ⟨h.proceeds.trans hqr, h.nodup, h.fresh, fun b hb => (h.awaits b hb).proceed hqr List.not_mem_nil⟩

/-- One of the blocks is entered. -/
theorem enter (h : Prepares (b :: bs) p q) (hqr : q.Proceeds [b] r) : Prepares bs p r where
  proceeds := (hqr.after h.proceeds).forget fun d hd =>
    List.mem_singleton.1 hd ▸ h.fresh b List.mem_cons_self
  nodup := (List.nodup_cons.1 h.nodup).2
  fresh d hd := h.fresh d (List.mem_cons_of_mem b hd)
  awaits d hd := by
    refine (h.awaits d (List.mem_cons_of_mem b hd)).proceed hqr fun hmem => ?_
    obtain rfl := List.mem_singleton.1 hmem
    exact (List.nodup_cons.1 h.nodup).1 hd

theorem waits (h : Prepares bs p q) (hW : Site.Waits W p.toSite) : Site.Waits (bs ++ W) q.toSite := by
  intro b hb
  rcases List.mem_append.1 hb with hb | hb
  · exact ⟨(h.target hb).has, (h.awaits b hb).elsewhere⟩
  · exact h.proceeds.waits hW b hb

end Prepares

/-! ### New blocks -/

/-- What is known behind a step is known of a place there. -/
theorem exists_of_walks {post : α → Place → Prop} {a : α} {t : State} (h : p.Walks env m post)
    (hrun : m env p.state = (.done a, t)) : ∃ q : Place, q.state = t ∧ p.Continues q ∧ post a q := by
  unfold Walks Yields Runs at h
  rwa [hrun] at h

/-- The function that is being written is known from the state. -/
theorem function_eq (hpq : p.Continues q) (h : q.state.builder.mod.function? p.id = some f) :
    q.function = f := by
  have hq := q.builds.2
  rw [hpq.id] at hq
  exact Option.some.inj (hq.symm.trans h)

/-- Behind a block that was added to the layout, the block waits. -/
theorem prepares_addBlock {layout : List BlockId} (h : Prepares bs p q) (hqr : q.Continues r)
    (hr : r.state = { q.state with
      builder := q.state.builder.write q.id (q.function.addBlock layout) q.state.builder.block })
    (htarget : r.Target q.function.nextBlock) :
    Prepares (q.function.nextBlock :: bs) p r ∧ ∀ f, r.spot f = q.spot f := by
  have hfunction : r.function = q.function.addBlock layout := by
    refine function_eq hqr ?_
    rw [hr]
    exact Builder.function?_write q.builds.2
  have hopen : r.openBlock = q.openBlock := by
    rw [Site.openBlock, Site.openBlock, hfunction, hr]
    show Function.openAt _ q.state.builder.block = _
    cases q.state.builder.block <;> simp [Function.openAt, Function.isTerminated_eq]
  have hnew := q.function.not_has_nextBlock
  have hproceeds : q.Proceeds [] r := by
    refine ⟨hqr, ⟨hqr.id, hqr.ext, fun b _ _ _ => ?_, fun d hd _ => .inl (hopen ▸ hd)⟩, [], .of_diags ?_⟩
    · simp [hfunction]
    · rw [hr]
  refine ⟨⟨h.proceeds.trans hproceeds, List.nodup_cons.2 ⟨fun hmem => hnew (h.target hmem).has, h.nodup⟩,
    ?_, ?_⟩, fun f => ?_⟩
  · rintro b (_ | ⟨_, hb⟩)
    · exact fun hold => hnew (h.proceeds.continues.ext.has _ hold)
    · exact h.fresh b hb
  · rintro b (_ | ⟨_, hb⟩)
    · refine ⟨htarget, ?_, ?_, fun heq => hnew (Site.has_openBlock (hopen ▸ heq))⟩
      · rw [hfunction, Function.codeAt_addBlock, Function.codeAt_of_not_has hnew]
      · rw [hfunction, Function.termAt_addBlock, Function.termAt_of_not_has hnew]
    · exact (h.awaits b hb).proceed hproceeds List.not_mem_nil
  · rw [Site.spot, Site.spot, hopen]
    congr 1
    funext b
    rw [Function.behind, Function.behind, hfunction, Function.codeAt_addBlock]

/-- A new block waits. -/
theorem Prepares.exists_newBlock (h : Prepares bs p q) (env : Env) (line : Nat) :
    ∃ b r, emit line Build.newBlock env q.state = (.done b, r.state) ∧ Prepares (b :: bs) p r ∧
      (∀ f, r.spot f = q.spot f) ∧ ∀ v, q.Knows v → r.Knows v := by
  have hrun : emit line Build.newBlock env q.state = _ := emit_of_ok (Build.newBlock_eq q.builds)
  obtain ⟨r, hr, hqr, htarget, hknows⟩ := exists_of_walks walks_newBlock hrun
  obtain ⟨hprepares, hspot⟩ := prepares_addBlock h hqr hr htarget
  exact ⟨_, r, hr ▸ hrun, hprepares, hspot, hknows⟩

/-- A new block in front of one that waits. -/
theorem Prepares.exists_newBlockBefore (h : Prepares bs p q) (env : Env) (line : Nat) {anchor : BlockId}
    (hanchor : anchor ∈ bs) :
    ∃ b r, emit line (Build.newBlockBefore anchor) env q.state = (.done b, r.state) ∧
      Prepares (b :: bs) p r ∧ (∀ f, r.spot f = q.spot f) ∧ ∀ v, q.Knows v → r.Knows v := by
  have hrun : emit line (Build.newBlockBefore anchor) env q.state = _ :=
    emit_of_ok (Build.newBlockBefore_eq q.builds anchor)
  obtain ⟨r, hr, hqr, htarget, hknows⟩ := exists_of_walks (walks_newBlockBefore (h.target hanchor)) hrun
  obtain ⟨hprepares, hspot⟩ := prepares_addBlock h hqr hr htarget
  exact ⟨_, r, hr ▸ hrun, hprepares, hspot, hknows⟩

/-- The cursor gets to a block that waits; its code begins at the beginning of the block. -/
theorem exists_setBlock (env : Env) (h : p.Awaits b) :
    ∃ q : Place, setBlock b env p.state = (.done (), q.state) ∧ p.Proceeds [b] q ∧
      ∀ W f, Site.Becomes W q.toSite f → q.spot f = some (f.start b) := by
  let q := p.lift (p.moveTo b h.target.has) rfl (.refl _ _) rfl
  have hopen : q.openBlock = some b := Site.openBlock_eq_some_iff.2 ⟨rfl, h.isOpen⟩
  refine ⟨q, rfl, ⟨continues_lift _ _ _, ⟨rfl, .refl _ _, fun _ _ _ _ => ⟨rfl, rfl⟩, ?_⟩, [], .refl _⟩,
    fun W f hf => ?_⟩
  · intro d hd _
    obtain rfl := Option.some.inj (hopen.symm.trans hd)
    exact .inr (List.mem_singleton_self _)
  · have hcode : q.function.codeAt b = [] := h.code
    have hplain : f.instsAt b = f.codeAt b := by
      refine hf.plain b fun heq => h.target.not_entry ?_
      rwa [hf.entry] at heq
    rw [Site.spot, hopen, Option.map_some, Function.behind, hcode, Function.start, hplain]
    rfl

/-! ### Terminators -/

/-- A block is closed, the one at the cursor if that is open. -/
theorem exists_terminate (env : Env) (line : Nat) {t : Terminator} (hoperands : ∀ v ∈ t.operands, p.Knows v)
    (htargets : ∀ b ∈ t.successors, p.Target b) :
    ∃ c q, emit line (Build.terminate t) env p.state = (.done (), q.state) ∧ p.Proceeds [] q ∧
      p.toSite.Closes c t q.toSite := by
  obtain ⟨c, y, hrun, hcloses, hext, -⟩ := Site.exists_terminate env line p.toSite hoperands
    fun b hb => ⟨(htargets b hb).has, p.wellFormed.noPhi (htargets b hb).parent, fun d hd => by
      simp [(htargets b hb).parent] at hd⟩
  refine ⟨c, p.lift y hcloses.id hext hcloses.context, hrun, ⟨continues_lift _ _ _,
    ⟨hcloses.id, hext, fun b hb hcur _ => ⟨hcloses.code b, ?_⟩, fun d hd hold => ?_⟩,
    (show Regular (.loose env) true _ from .emit line _).exists_queues hrun⟩, hcloses⟩
  · have hne : c ≠ b := by
      rintro rfl
      exact hcloses.place.elim hcur fun hnew => hnew.2 hb
    exact (hcloses.term b).trans (if_neg hne)
  · obtain ⟨hcur, hterm⟩ := Site.openBlock_eq_some_iff.1 hd
    obtain rfl : c = d := Option.some.inj (hcloses.cursor.symm.trans hcur)
    exact nomatch hterm.symm.trans ((hcloses.term c).trans (if_pos rfl))

/-- No spot is at the cursor once it has been closed. -/
theorem spot_of_closes {x y : Site} {t : Terminator} (h : x.Closes c t y) (f : Function) :
    y.spot f = none := by
  refine Option.map_eq_none_iff.2 (Option.eq_none_iff_forall_ne_some.2 fun d hd => ?_)
  obtain ⟨hcur, hterm⟩ := Site.openBlock_eq_some_iff.1 hd
  obtain rfl : c = d := Option.some.inj (h.cursor.symm.trans hcur)
  exact nomatch hterm.symm.trans ((h.term c).trans (if_pos rfl))

/-- In the finished function, the terminator stands where the site in front of it was. -/
theorem rest_of_closes {x y : Site} {t : Terminator} (h : x.Closes c t y)
    (hf : Site.Becomes W y f) (hsp : x.spot f = some sp) : sp.rest = [] ∧ f.termAt sp.block = some t := by
  obtain ⟨d, hd, rfl⟩ := Option.map_eq_some_iff.1 hsp
  obtain rfl := h.eq hd
  obtain ⟨hcode, hterm⟩ := hf.precedes.closed c t ((h.term c).trans (if_pos rfl))
  refine ⟨?_, hterm⟩
  show (f.codeAt c).drop (x.function.codeAt c).length = []
  rw [hcode, h.code, List.drop_length]

/-- Control goes on to a block, unless it has gone elsewhere. -/
theorem exists_fallThrough (env : Env) (line : Nat) (hb : p.Target b) :
    ∃ q : Place, fallThrough b line env p.state = (.done (), q.state) ∧ p.Proceeds [] q ∧
      ∀ W f, Site.Becomes W q.toSite f → Joins f (p.spot f) b := by
  have hread : ∀ t o, (if p.state.builder.isTerminated = true then (pure () : Lower Unit)
      else emit line (Build.goto b)) env p.state = (o, t) → fallThrough b line env p.state = (o, t) := by
    intro t o h
    cases hterm : p.state.builder.isTerminated <;> simp only [hterm] at h <;>
      simpa [fallThrough, bind, Lower.bind, read, hterm] using h
  rw [Builder.isTerminated_eq p.builds] at hread
  cases hopen : p.openBlock with
  | none =>
    refine ⟨p, hread _ _ ?_, .refl [] p, fun W f _ sp hsp => ?_⟩
    · have hnone : p.function.openAt p.state.builder.block = none := hopen
      rw [hnone]
      rfl
    · rw [Site.spot, hopen, Option.map_none] at hsp
      exact absurd hsp.symm (Option.some_ne_none sp)
  | some d =>
    obtain ⟨c, q, hrun, hpq, hcloses⟩ := exists_terminate env line (t := .goto b)
      (by simp [Terminator.operands]) (by simpa [Terminator.successors] using hb)
    refine ⟨q, hread _ _ ?_, hpq, fun W f hf sp hsp => .inr (rest_of_closes hcloses hf hsp)⟩
    have hsome : p.function.openAt p.state.builder.block = some d := hopen
    rw [hsome]
    exact hrun

end TreeFlow.Lower.Place
