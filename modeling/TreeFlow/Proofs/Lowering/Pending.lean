import TreeFlow.Proofs.Lowering.Apart
import TreeFlow.Proofs.Lowering.Body

/-!
# The order of the labels that are never defined

Where a body ends, the labels that are still pending are reported in the order of their lines, and the blocks
that stand for them are closed. It makes no difference in which order the labels were kept
(`Place.finishFunction_of_perm`): the function is the same, and so are the diagnostics, on the same lines one
after the other. Only those on one line may come in another order. Where no two of the labels were first
asked for on the same line, everything is the same.

The function does not depend on the order because closing two blocks commutes, also where a block was closed
before, and a fresh one is closed in its place (`Function.shut_comm`).
-/

namespace TreeFlow

/-! ### Closing blocks that are never reached -/

namespace Function

variable {f : Function} {a b : BlockId} {bs cs : List BlockId}

/-- A block is closed as one that is never reached. If it was closed before, a fresh block is, instead. -/
def shut (f : Function) (b : BlockId) : Function :=
  (f.ready (some b)).2.terminate (f.ready (some b)).1 .unreachable

/-- A function with one more block, which is closed. -/
def withShut (f : Function) : Function :=
  (f.addBlock (f.layout ++ [f.nextBlock])).terminate f.nextBlock .unreachable

theorem shut_of_open (hb : f.termAt b = none) : f.shut b = f.terminate b .unreachable := by
  rw [shut, ready_of_open (openAt_eq_some_iff.2 ⟨rfl, hb⟩)]

theorem shut_of_closed {t : Terminator} (hb : f.termAt b = some t) : f.shut b = f.withShut := by
  have hnone : f.openAt (some b) = none := by
    rw [Option.eq_none_iff_forall_ne_some]
    intro c hc
    obtain ⟨hcb, hopen⟩ := openAt_eq_some_iff.1 hc
    cases hcb
    cases hb.symm.trans hopen
  rw [shut, ready_of_closed hnone, withShut]

theorem has_withShut (ha : f.Has a) : f.withShut.Has a := has_terminate.2 (has_addBlock.2 (.inl ha))

theorem termAt_withShut (ha : f.Has a) : f.withShut.termAt a = f.termAt a := by
  have hne : f.nextBlock ≠ a := by
    rintro rfl
    exact f.not_has_nextBlock ha
  rw [withShut, termAt_terminate (has_addBlock.2 (.inr rfl)), if_neg hne, termAt_addBlock]

theorem has_shut (ha : f.Has a) : (f.shut b).Has a := by
  cases hb : f.termAt b with
  | none => exact shut_of_open hb ▸ has_terminate.2 ha
  | some t => exact shut_of_closed hb ▸ has_withShut ha

theorem terminate_comm (t u : Terminator) (hne : a ≠ b) :
    (f.terminate a t).terminate b u = (f.terminate b u).terminate a t := by
  have hindex : a.index ≠ b.index := fun h => hne (congrArg BlockId.mk h)
  refine congrArg (fun blocks => { f with blocks }) (Array.ext_getElem? fun i => ?_)
  simp only [terminate, modifyBlock, Array.getElem?_modify]
  grind

theorem addBlock_terminate {layout : List BlockId} (ha : f.Has a) (t : Terminator) :
    (f.terminate a t).addBlock layout = (f.addBlock layout).terminate a t := by
  refine congrArg (fun blocks => { f with blocks, layout }) (Array.ext_getElem? fun i => ?_)
  have ha : a.index < f.blocks.size := ha
  simp only [terminate, modifyBlock, addBlock, Array.getElem?_push, Array.getElem?_modify, Array.size_modify]
  grind

theorem withShut_terminate (ha : f.Has a) (t : Terminator) :
    (f.terminate a t).withShut = f.withShut.terminate a t := by
  have hnext : (f.terminate a t).nextBlock = f.nextBlock := congrArg BlockId.mk Array.size_modify
  have hne : a ≠ f.nextBlock := by
    rintro rfl
    exact f.not_has_nextBlock ha
  rw [withShut, hnext, layout_terminate, addBlock_terminate ha, terminate_comm _ _ hne, withShut]

/-- It makes no difference which of two blocks is closed first. -/
theorem shut_comm (ha : f.Has a) (hb : f.Has b) : (f.shut a).shut b = (f.shut b).shut a := by
  by_cases hab : a = b
  · rw [hab]
  cases hta : f.termAt a with
  | none =>
    cases htb : f.termAt b with
    | none =>
      have hta' : (f.terminate b .unreachable).termAt a = none := by
        rw [termAt_terminate hb, if_neg (Ne.symm hab), hta]
      have htb' : (f.terminate a .unreachable).termAt b = none := by
        rw [termAt_terminate ha, if_neg hab, htb]
      rw [shut_of_open hta, shut_of_open htb', shut_of_open htb, shut_of_open hta',
        terminate_comm _ _ hab]
    | some t =>
      have htb' : (f.terminate a .unreachable).termAt b = some t := by
        rw [termAt_terminate ha, if_neg hab, htb]
      rw [shut_of_open hta, shut_of_closed htb', shut_of_closed htb,
        shut_of_open ((termAt_withShut ha).trans hta), withShut_terminate ha]
  | some t =>
    cases htb : f.termAt b with
    | none =>
      have hta' : (f.terminate b .unreachable).termAt a = some t := by
        rw [termAt_terminate hb, if_neg (Ne.symm hab), hta]
      rw [shut_of_closed hta, shut_of_open ((termAt_withShut hb).trans htb), shut_of_open htb,
        shut_of_closed hta', withShut_terminate hb]
    | some u =>
      rw [shut_of_closed hta, shut_of_closed ((termAt_withShut hb).trans htb), shut_of_closed htb,
        shut_of_closed ((termAt_withShut ha).trans hta)]

/-- Nor does the order of more of them. -/
theorem foldl_shut_of_perm (h : bs.Perm cs) (hbs : ∀ b ∈ bs, f.Has b) :
    bs.foldl shut f = cs.foldl shut f := by
  induction h generalizing f with
  | nil => rfl
  | cons b _ ih => exact ih fun c hc => has_shut (hbs c (List.mem_cons_of_mem b hc))
  | swap a b rest =>
    have hcomm := shut_comm (hbs b List.mem_cons_self) (hbs a (by simp))
    simp only [List.foldl_cons, hcomm]
  | trans hbc _ ih ih' => exact (ih hbs).trans (ih' fun c hc => hbs c (hbc.mem_iff.2 hc))

/-- The blocks that are laid out are still blocks of the function. -/
theorem has_of_mem_layout_shut (h : ∀ c ∈ f.layout, f.Has c) : ∀ c ∈ (f.shut b).layout, (f.shut b).Has c := by
  intro c hc
  cases hb : f.termAt b with
  | none =>
    rw [shut_of_open hb] at hc ⊢
    exact has_terminate.2 (h c hc)
  | some t =>
    rw [shut_of_closed hb] at hc ⊢
    rcases List.mem_append.1 hc with hold | hnew
    · exact has_withShut (h c hold)
    · exact has_terminate.2 (has_addBlock.2 (.inr (List.mem_singleton.1 hnew)))

theorem has_of_mem_layout_foldl_shut (h : ∀ c ∈ f.layout, f.Has c) :
    ∀ c ∈ (bs.foldl shut f).layout, (bs.foldl shut f).Has c := by
  induction bs generalizing f with
  | nil => exact h
  | cons b rest ih => exact ih (has_of_mem_layout_shut h)

/-- The function at the end of a body, where the blocks that stand for labels are closed first, and then all
that are still open. -/
def finishedWith (f : Function) (blocks : List BlockId) : Function :=
  let g := blocks.foldl shut f
  (g.layout.filter fun b => !g.isTerminated b).foldl shut g

theorem finishedWith_of_perm (h : bs.Perm cs) (hbs : ∀ b ∈ bs, f.Has b) :
    f.finishedWith bs = f.finishedWith cs := by
  rw [finishedWith, finishedWith, foldl_shut_of_perm h hbs]

end Function

namespace Lower

variable {env : Env} {line : Nat} {labels more : List PendingLabel} {s t u : State} {id : FuncId}
  {f : Function}

/-! ### Labels by their lines -/

theorem perm_sortPending (labels : List PendingLabel) : (sortPending labels).Perm labels :=
  List.mergeSort_perm labels _

theorem pairwise_sortPending (labels : List PendingLabel) :
    (sortPending labels).Pairwise fun a b => a.line ≤ b.line := by
  refine (List.pairwise_mergeSort ?_ ?_ labels).imp fun h => by simpa using h
  · simpa using fun a b c : PendingLabel => Nat.le_trans
  · simpa using fun a b : PendingLabel => Nat.le_total a.line b.line

theorem sortPending_perm (h : labels.Perm more) : (sortPending labels).Perm (sortPending more) :=
  (perm_sortPending labels).trans (h.trans (perm_sortPending more).symm)

/-- The lines come in one order, whatever the order of the labels. -/
theorem lines_sortPending (h : labels.Perm more) :
    (sortPending labels).map (·.line) = (sortPending more).map (·.line) := by
  have hsorted : ∀ ls, ((sortPending ls).map (·.line)).Pairwise (· ≤ ·) := fun ls =>
    List.pairwise_map.2 (pairwise_sortPending ls)
  exact List.Perm.eq_of_pairwise (fun _ _ _ _ => Nat.le_antisymm) (hsorted labels) (hsorted more)
    ((sortPending_perm h).map _)

/-- Labels on different lines come in one order themselves. -/
theorem sortPending_eq (h : labels.Perm more) (hlines : (more.map (·.line)).Nodup) :
    sortPending labels = sortPending more := by
  refine List.Perm.eq_of_pairwise (fun a b ha hb hab hba => ?_) (pairwise_sortPending labels)
    (pairwise_sortPending more) (sortPending_perm h)
  have ha : a ∈ more := ((perm_sortPending labels).trans h).subset ha
  exact List.inj_on_of_nodup_map hlines ha ((perm_sortPending more).subset hb) (Nat.le_antisymm hab hba)

/-! ### What is done at the end of a body -/

/-- What is said of a label that was never defined. -/
def undefinedLabel (env : Env) (l : PendingLabel) : Diagnostic :=
  ⟨.undeclaredIdentifier l.name, env.tree.file, l.line⟩

/-- A block is closed, and then the rest is done. -/
theorem bind_shut {b : BlockId} {next : Unit → Lower Unit} (hb : s.builder.Builds id f) (hhas : f.Has b) :
    (setBlock b >>= fun _ => emit line Build.unreachable >>= next) env s =
      next () env { s with builder := s.builder.write id (f.shut b) (some (f.ready (some b)).1) } := by
  have hclose : Build.unreachable (s.builder.setBlock b) = _ :=
    Build.terminate_eq (b := s.builder.setBlock b) hb (fun c hc => Option.some.inj hc ▸ hhas) .unreachable
  exact bind_run (emit_of_ok (s := { s with builder := s.builder.setBlock b }) hclose)

/-- The labels are reported one after the other, and the blocks that stand for them are closed. -/
theorem closePending_eq (env : Env) (hb : s.builder.Builds id f) (hlabels : ∀ l ∈ labels, f.Has l.block) : ∃ cur,
    closePending labels env s = (.done (), { s with
      diags := (labels.map (undefinedLabel env)).foldl DiagnosticQueue.push s.diags
      builder := s.builder.write id ((labels.map (·.block)).foldl Function.shut f) cur }) := by
  induction labels generalizing s f with
  | nil => exact ⟨s.builder.block, by rw [List.map_nil, List.foldl_nil, Builder.write_self hb]; rfl⟩
  | cons l rest ih =>
    let u : State := { s with diags := s.diags.push (undefinedLabel env l) }
    have hrest : ∀ k ∈ rest, (f.shut l.block).Has k.block := fun k hk =>
      Function.has_shut (hlabels k (List.mem_cons_of_mem l hk))
    obtain ⟨cur, hrun⟩ := ih (s := { u with builder := u.builder.write id (f.shut l.block) _ }) hb.write hrest
    refine ⟨cur, ?_⟩
    show (setBlock l.block >>= fun _ => emit l.line Build.unreachable >>= fun _ => closePending rest) env u = _
    rw [bind_shut (s := u) hb (hlabels l List.mem_cons_self), hrun, Builder.write_write]
    rfl

/-- Blocks are closed one after the other. -/
theorem closeBlocks_eq (line : Nat) (env : Env) {bs : List BlockId} (hb : s.builder.Builds id f)
    (hbs : ∀ b ∈ bs, f.Has b) : ∃ cur,
    closeBlocks line bs env s =
      (.done (), { s with builder := s.builder.write id (bs.foldl Function.shut f) cur }) := by
  induction bs generalizing s f with
  | nil => exact ⟨s.builder.block, by rw [List.foldl_nil, Builder.write_self hb]; rfl⟩
  | cons b rest ih =>
    obtain ⟨cur, hrun⟩ := ih (s := { s with builder := s.builder.write id (f.shut b) _ }) hb.write
      fun d hd => Function.has_shut (hbs d (List.mem_cons_of_mem b hd))
    refine ⟨cur, ?_⟩
    show (setBlock b >>= fun _ => emit line Build.unreachable >>= fun _ => closeBlocks line rest) env s = _
    rw [bind_shut hb (hbs b List.mem_cons_self), hrun, Builder.write_write]
    rfl

/-- Behind the place where a body ends, labels are reported, and blocks are closed. -/
theorem closeRest_eq (line : Nat) (env : Env) (p : Place) (hlabels : ∀ l ∈ labels, p.function.Has l.block) : ∃ cur,
    closeRest line p.id env { p.state with pending := labels } = (.done (), { p.state with
      pending := []
      diags := ((sortPending labels).map (undefinedLabel env)).foldl DiagnosticQueue.push p.state.diags
      builder := p.state.builder.write p.id
        (p.function.finishedWith ((sortPending labels).map (·.block))) cur }) := by
  obtain ⟨cur, hpending⟩ := closePending_eq (s := { p.state with pending := [] }) env p.builds
    fun l hl => hlabels l ((perm_sortPending labels).subset hl)
  let g := ((sortPending labels).map (·.block)).foldl Function.shut p.function
  let u : State := { p.state with
    pending := []
    diags := ((sortPending labels).map (undefinedLabel env)).foldl DiagnosticQueue.push p.state.diags
    builder := p.state.builder.write p.id g cur }
  have hg : u.builder.Builds p.id g := p.builds.write
  have hlisted : ∀ b ∈ g.layout, g.Has b :=
    Function.has_of_mem_layout_foldl_shut fun b hb => (p.wellFormed.mem_layout b).1 hb
  obtain ⟨cur', hblocks⟩ := closeBlocks_eq (s := u) line env hg fun b hb =>
    hlisted b (List.mem_of_mem_filter (p := fun b => !g.isTerminated b) hb)
  have hat : functionAt p.id env u = (.done (some g), u) := congrArg (fun o => (Outcome.done o, u)) hg.2
  refine ⟨cur', ?_⟩
  show (closePending (sortPending labels) >>= _) env { p.state with pending := [] } = _
  rw [bind_run hpending, bind_run hat]
  refine hblocks.trans ?_
  rw [Builder.write_write]
  rfl

theorem closeRest_congr (line : Nat) (id : FuncId) (env : Env) (s : State)
    (h : sortPending labels = sortPending more) :
    closeRest line id env { s with pending := labels } =
      closeRest line id env { s with pending := more } := by
  show (closePending (sortPending labels) >>= _) env { s with pending := [] } = _
  rw [h]
  rfl

/-- What is done before the labels are looked at leads to one place, whatever the labels are. -/
theorem exists_closeRest (p : Place) (hrun : finishFunction line env p.state = (.done (), t)) :
    ∃ q : Place, q.state.pending = p.state.pending ∧ (∀ l ∈ q.state.pending, q.function.Has l.block) ∧
      ∀ labels, finishFunction line env { p.state with pending := labels } =
        closeRest line q.id env { q.state with pending := labels } := by
  obtain ⟨o, ho, hid⟩ := p.func
  -- The front of the step, for any labels.
  have hfront : ∀ labels, finishFunction line env { p.state with pending := labels } =
      (if !p.state.builder.isTerminated then closeLast o line >>= fun _ => closeRest line o.id
        else closeRest line o.id) env { p.state with pending := labels } := fun labels => by
    have hread : read (·.func) env { p.state with pending := labels } =
        (.done (some o), { p.state with pending := labels }) := congrArg (fun x => (Outcome.done x, _)) ho
    show (read (·.func) >>= _) env _ = _
    rw [bind_run hread]
    rfl
  have hterminated := Builder.isTerminated_eq p.builds
  cases hopen : p.openBlock with
  | none =>
    rw [show p.function.openAt p.state.builder.block = none from hopen] at hterminated
    refine ⟨p, rfl, fun l hl => (p.pending l hl).has, fun labels => (hfront labels).trans ?_⟩
    rw [hterminated, hid]
    rfl
  | some d =>
    rw [show p.function.openAt p.state.builder.block = some d from hopen] at hterminated
    have hsplit : ∀ labels, finishFunction line env { p.state with pending := labels } =
        (closeLast o line >>= fun _ => closeRest line o.id) env { p.state with pending := labels } := by
      intro labels
      rw [hfront, hterminated]
      rfl
    obtain ⟨⟨⟩, u, hlast, -⟩ := bind_eq_done ((hsplit p.state.pending).symm.trans hrun)
    have hruns : Runs (closeLast o line) env p.state _ _ := Place.completes_closeLast hid hopen
    rw [Runs, hlast] at hruns
    obtain ⟨q, rfl, hpq, -⟩ := hruns
    -- Closing the last block has nothing to do with the labels.
    have hregular : Regular (.apart env) false (closeLast o line) := regular_closeLast line o
    have hkeeps := (show Apart env false _ from .of_regular hregular).keeps p.state
    rw [Ends, hlast] at hkeeps
    refine ⟨q, hkeeps.2, fun l hl => (q.pending l hl).has, fun labels => (hsplit labels).trans ?_⟩
    have hlast' : closeLast o line env { p.state with pending := labels } =
        (.done (), { q.state with pending := labels }) := by
      refine (hregular.commutes id p.state.loops labels p.state).trans ?_
      rw [hlast, ← hkeeps.1]
      rfl
    rw [bind_run hlast', hid, ← hpq.id]

/-- The diagnostics behind some that are queued one after the other. -/
theorem items_foldl_push (q : DiagnosticQueue) (new : List Diagnostic) :
    (new.foldl DiagnosticQueue.push q).items.toList = q.items.toList ++ new := by
  induction new generalizing q with
  | nil => simp
  | cons d rest ih => simp [ih, DiagnosticQueue.push]

/-- **The order in which pending labels are kept shows in nothing but the order of the diagnostics on one
line.** From any place, the end of the body comes to the same module, with the same diagnostics, on the same
lines one after the other. If no two of the labels were first asked for on the same line, it comes to the same
state. -/
theorem Place.finishFunction_of_perm (p : Place) (h : labels.Perm p.state.pending)
    (hrun : finishFunction line env p.state = (.done (), t)) :
    ∃ t', finishFunction line env { p.state with pending := labels } = (.done (), t') ∧
      t'.builder.mod = t.builder.mod ∧ t'.diags.items.toList.Perm t.diags.items.toList ∧
      t'.diags.items.toList.map (·.line) = t.diags.items.toList.map (·.line) ∧
      ((p.state.pending.map (·.line)).Nodup → t' = t) := by
  obtain ⟨q, hpending, hhas, hsplit⟩ := exists_closeRest p hrun
  have hhas' : ∀ l ∈ labels, q.function.Has l.block := fun l hl => hhas l (hpending ▸ h.subset hl)
  obtain ⟨cur, hrest⟩ := closeRest_eq line env q (hpending ▸ hhas)
  obtain ⟨cur', hrest'⟩ := closeRest_eq line env q hhas'
  obtain ⟨-, rfl⟩ := Prod.mk.inj (hrun.symm.trans ((hsplit p.state.pending).trans hrest))
  have hsorted := sortPending_perm h
  refine ⟨_, (hsplit labels).trans hrest', ?_, ?_, ?_, fun hlines => ?_⟩
  · have hfinished := Function.finishedWith_of_perm (hsorted.map (·.block)) fun b hb => by
      obtain ⟨l, hl, rfl⟩ := List.mem_map.1 hb
      exact hhas' l ((perm_sortPending labels).subset hl)
    exact congrArg (fun f => q.state.builder.mod.modifyFunction q.id fun _ => f) hfinished
  · rw [items_foldl_push, items_foldl_push]
    exact (hsorted.map _).append_left _
  · have hlines := lines_sortPending h
    rw [items_foldl_push, items_foldl_push, List.map_append, List.map_append, List.map_map, List.map_map]
    exact congrArg _ hlines
  · have hsame := closeRest_congr line q.id env q.state (sortPending_eq h hlines)
    exact (Prod.mk.inj (hrest'.symm.trans (hsame.trans hrest))).2

end Lower

end TreeFlow
