import TreeFlow.Proofs.Graph.Cursor
import TreeFlow.Proofs.Lowering.Sound

/-!
# The end of a body

When a body ends, its function may have any number of open blocks, for statements stop in the middle and a
jump may have left its label behind. The end of a body goes through them one by one and closes each, and where
a block is closed already, what is started instead is closed as well. So whatever was lowered before, all blocks
of the function are closed in the end, and it is neither built any more nor the startup routine
(`ends_closed_functionBody`).
-/

namespace TreeFlow

/-! ### Closing one block -/

/-- All open blocks of a function are among some blocks. -/
def Function.OpenAmong (f : Function) (bs : List BlockId) : Prop :=
  ∀ b, f.Has b → f.termAt b = none → b ∈ bs

/-- A terminator closes the block at the cursor. If that was closed, it closes the one that is started. -/
theorem Function.OpenAmong.terminate {f : Function} {cur : Option BlockId} {bs : List BlockId}
    (h : f.OpenAmong bs) (hcur : ∀ c, cur = some c → f.Has c) (t : Terminator) :
    ((f.ready cur).2.terminate (f.ready cur).1 t).OpenAmong (bs.filter fun b => some b ≠ cur) := by
  intro b hb hnone
  rw [has_terminate] at hb
  cases hopen : f.openAt cur with
  | some c =>
    rw [ready_of_open hopen] at hb hnone
    obtain ⟨rfl, -⟩ := openAt_eq_some_iff.1 hopen
    rw [termAt_terminate (hcur c rfl)] at hnone
    split at hnone
    · cases hnone
    · next hne => exact List.mem_filter.2 ⟨h b hb hnone, by simpa using Ne.symm hne⟩
  | none =>
    rw [ready_of_closed hopen] at hb hnone
    rw [termAt_terminate (has_addBlock.2 (.inr rfl)), termAt_addBlock] at hnone
    split at hnone
    · cases hnone
    · next hne =>
      have hold : f.Has b := (has_addBlock.1 hb).resolve_right (Ne.symm hne)
      refine List.mem_filter.2 ⟨h b hold hnone, ?_⟩
      rw [decide_eq_true_eq]
      rintro rfl
      exact nomatch hopen.symm.trans (openAt_eq_some_iff.2 ⟨rfl, hnone⟩)

/-- A terminator is refused at a block of another function. -/
theorem Build.terminate_missing {b : Builder} {id : FuncId} {f : Function} {c : BlockId} (h : b.Builds id f)
    (hblock : b.block = some c) (hc : ¬ f.Has c) (t : Terminator) : terminate t b = .error (.missingBlock c) := by
  simp only [terminate, insertionBlock, bind, StateT.bind, function_eq h, Except.bind, get, getThe,
    MonadStateOf.get, StateT.get, pure, Except.pure, hblock, Function.block?_eq_none hc]
  rfl

namespace Lower

variable {α β : Type} {env : Env} {line : Nat}

/-! ### Steps that do not fail -/

/-- A step does not fail, and it comes to a state with some property, unless it is stuck. -/
def Goes (m : Lower α) (env : Env) (s : State) (P : State → Prop) : Prop :=
  match m env s with
  | (.done _, t) => P t
  | (.failed, _) => False
  | (.stuck _, _) => True

namespace Goes

variable {m : Lower α} {next : α → Lower β} {s : State} {P Q : State → Prop}

theorem of_done {a : α} {t : State} (h : m env s = (.done a, t)) (ht : P t) : Goes m env s P := by
  rw [Goes, h]
  exact ht

theorem bind (h : Goes m env s P) (hnext : ∀ a t, P t → Goes (next a) env t Q) : Goes (m >>= next) env s Q := by
  show Goes (Lower.bind m next) env s Q
  unfold Goes at h
  unfold Goes Lower.bind
  rcases hm : m env s with ⟨a | _ | _, t⟩
  · rw [hm] at h
    exact hnext a t h
  · rw [hm] at h
    exact h.elim
  · trivial

theorem bind_of_done {a : α} {t : State} (hm : m env s = (.done a, t)) (h : Goes (next a) env t Q) :
    Goes (m >>= next) env s Q := by
  show Goes (Lower.bind m next) env s Q
  unfold Goes Lower.bind
  rw [hm]
  exact h

theorem imp (h : Goes m env s P) (hPQ : ∀ t, P t → Q t) : Goes m env s Q := by
  unfold Goes at h ⊢
  split <;> simp_all

theorem ends (h : Goes m env s P) : Ends m env s P := by
  unfold Goes at h
  unfold Ends
  rcases hm : m env s with ⟨_ | _ | _, t⟩
  · rwa [hm] at h
  · rw [hm] at h
    exact h.elim
  · trivial

end Goes

/-! ### The end of a body -/

/-- A function is being built, and all of its open blocks are among some blocks. -/
def State.LeavesOpen (s : State) (id : FuncId) (bs : List BlockId) : Prop :=
  ∃ f, s.builder.Builds id f ∧ f.IsListed ∧ f.OpenAmong bs

section Ends

variable {s : State} {id : FuncId} {bs : List BlockId}

/-- A terminator closes the block at the cursor. -/
theorem goes_terminate (h : s.LeavesOpen id bs) (t : Terminator) : Goes (emit line (Build.terminate t)) env s
    fun u => u.LeavesOpen id (bs.filter fun b => some b ≠ s.builder.block) := by
  obtain ⟨f, hbuilds, hlisted, hopen⟩ := h
  by_cases hcur : ∀ c, s.builder.block = some c → f.Has c
  · have heq := Build.terminate_eq hbuilds hcur t
    refine .of_done (emit_of_ok heq) ⟨_, hbuilds.write, ?_, hopen.terminate hcur t⟩
    obtain ⟨g, hg, hdevelops⟩ := ((Build.steady_terminate t) _ _ _ heq).mod.written id f hbuilds.2
    obtain rfl := Option.some.inj (hg.symm.trans hbuilds.write.2)
    exact hdevelops.listed hlisted
  · obtain ⟨c, hblock, hc⟩ : ∃ c, s.builder.block = some c ∧ ¬ f.Has c := by simpa using hcur
    have heq := Build.terminate_missing hbuilds hblock hc t
    rw [Goes, emit, heq]
    trivial

theorem goes_terminate_of_mem {b : BlockId} (h : s.LeavesOpen id (b :: bs)) (t : Terminator) :
    Goes (do setBlock b; emit line (Build.terminate t)) env s fun u => u.LeavesOpen id bs := by
  refine .bind_of_done rfl ((goes_terminate (s := { s with builder := s.builder.setBlock b }) h t).imp ?_)
  rintro u ⟨f, hbuilds, hlisted, hopen⟩
  refine ⟨f, hbuilds, hlisted, fun c hc hnone => ?_⟩
  obtain ⟨hmem, hne⟩ := List.mem_filter.1 (hopen c hc hnone)
  refine (List.mem_cons.1 hmem).resolve_left ?_
  rintro rfl
  simp [Builder.setBlock] at hne

theorem goes_closeLast (h : s.LeavesOpen id bs) (o : OpenFunction) :
    Goes (closeLast o line) env s fun t => ∃ bs, t.LeavesOpen id bs := by
  have hclose : ∀ {u : State} (t : Terminator), u.LeavesOpen id bs →
      Goes (emit line (Build.terminate t)) env u fun t => ∃ bs, t.LeavesOpen id bs := fun t hu =>
    (goes_terminate hu t).imp fun _ ht => ⟨_, ht⟩
  have hrest : ∀ reached : Bool, Goes (do
      if !reached then emit line Build.unreachable
      else if o.result.isVoid then emit line (Build.ret none)
      else
        report .missingReturnStatement line
        emit line (Build.ret (some (.const (.zero o.result))))) env s fun t => ∃ bs, t.LeavesOpen id bs := by
    intro reached
    split
    · exact hclose _ h
    · split
      · exact hclose _ h
      · exact .bind_of_done rfl (hclose _ h)
  refine .bind_of_done rfl ?_
  dsimp only
  split
  · exact .bind_of_done rfl (hrest false)
  · next c _ =>
    obtain ⟨f, hbuilds, -⟩ := h
    exact .bind_of_done (emit_of_ok (Build.predecessors_eq hbuilds c))
      (.bind_of_done rfl (.bind_of_done rfl (hrest _)))

theorem goes_closePending (h : s.LeavesOpen id bs) (labels : List PendingLabel) :
    Goes (closePending labels) env s fun t => ∃ bs, t.LeavesOpen id bs := by
  induction labels generalizing s bs with
  | nil => exact .of_done rfl ⟨bs, h⟩
  | cons label rest ih =>
    exact .bind_of_done rfl (.bind_of_done rfl ((goes_terminate (by exact h) _).bind fun _ t ht => ih ht))

/-- Blocks are closed one by one. The ones that are left hold all that are open. -/
theorem goes_closeBlocks (h : s.LeavesOpen id bs) :
    Goes (closeBlocks line bs) env s fun t => t.LeavesOpen id [] := by
  induction bs generalizing s with
  | nil => exact .of_done rfl h
  | cons b rest ih => exact (goes_terminate_of_mem h .unreachable).bind fun _ t ht => ih ht

theorem goes_closeRest (h : s.LeavesOpen id bs) : Goes (closeRest line id) env s fun t => t.LeavesOpen id [] := by
  refine .bind_of_done rfl (.bind_of_done rfl ?_)
  refine (goes_closePending (s := { s with pending := [] }) h _).bind fun _ t ⟨_, f, hbuilds, hlisted, _⟩ => ?_
  refine .bind_of_done (a := some f) (t := t) (by rw [← hbuilds.2]; rfl) (goes_closeBlocks ?_)
  refine ⟨f, hbuilds, hlisted, fun b hb hnone => List.mem_filter.2 ⟨hlisted b hb, ?_⟩⟩
  simp [Function.isTerminated_eq, hnone]

theorem goes_finishFunction (h : s.LeavesOpen id bs) {o : OpenFunction} (ho : s.func = some o) (hid : o.id = id) :
    Goes (finishFunction line) env s fun t => t.LeavesOpen id [] := by
  subst hid
  refine .bind_of_done (a := some o) (t := s) (by rw [← ho]; rfl) (.bind_of_done rfl ?_)
  split
  · exact (goes_closeLast h o).bind fun _ t ⟨_, ht⟩ => goes_closeRest ht
  · exact goes_closeRest h

end Ends

/-! ### A whole body -/

/-- A state in which all is in order: names resolve, blocks are laid out, and outside of functions code only goes
to a function that has a body already. -/
structure State.IsPoised (s : State) : Prop extends s.IsRooted, s.IsOrderly where
  target : s.func = none → ∀ id, s.builder.func = some id → s.HasBody id

section Bodies

variable {lower : StmtId → Lower Unit} (hlower : ∀ id, Steady (lower id)) {s : State} {id : FuncId} {f : Function}
include hlower

/-- A body begins with a block, so the function has a body from then on. -/
theorem ends_functionContents (hf : s.builder.mod.function? id = some f) (result : Ty) (ps : List DeclaratorInfo)
    (body : StmtId) : Ends (functionContents lower ps body line) env (s.openBody id result) fun t =>
      (s.openBody id result).Leads t ∧ t.HasBody id := by
  have hbuilds : (s.openBody id result).builder.Builds id f := ⟨rfl, hf⟩
  have hrun : emit line Build.newBlock env (s.openBody id result) = _ := emit_of_ok (Build.newBlock_eq hbuilds)
  have hstarted := (Leaves.emit (R := State.Leads) line Build.steady_newBlock env _).of_eq_done hrun
  have hrest : SteadyInside (do setBlock f.nextBlock; bindParams 0 ps; lower body) :=
    .bind (.of_steady (.setBlock _)) fun _ => .bind (steadyInside_bindParams 0 ps) fun _ => .of_steady (hlower body)
  refine .bind_of_done hrun ((hrest env _ rfl).imp fun t ht => ?_)
  refine ⟨Chains.trans hstarted ht, ht.settles.body id ⟨_, hbuilds.write.2, ?_⟩⟩
  exact List.append_ne_nil_of_right_ne_nil _ (List.cons_ne_nil _ _)

/-- **A body closes all blocks of its function**, whatever is in it. Behind it the function is complete: it is
not built any more, and it is not the startup routine. -/
theorem ends_closed_functionBody (h : s.IsPoised) (hs : s.func = none) (hf : s.builder.mod.function? id = some f)
    (hdeclaration : f.isDeclaration) (result : Ty) (ps : List DeclaratorInfo) (body : StmtId) :
    Ends (functionBody lower id result ps body line) env s fun t => ∃ g,
      t.builder.mod.function? id = some g ∧ t.Settled id g ∧ ∀ b, g.Has b → (g.termAt b).isSome := by
  have hid := State.not_hasBody hf hdeclaration
  have hrooted : (s.openBody id result).IsRooted := h.openBody rfl rfl rfl rfl rfl
  have horderly : (s.openBody id result).IsOrderly := ⟨h.listed, h.startup⟩
  refine ends_bodyOf line (h.outside hs) (ends_functionContents hlower hf result ps body) fun t ⟨ht, hbody⟩ => ?_
  have hopen : ∃ bs, t.LeavesOpen id bs := by
    obtain ⟨g, hg, -⟩ := hbody
    have hlisted := (ht.settles.orderly horderly).listed id g hg
    exact ⟨g.layout, g, ⟨(ht.rooted hrooted).building _ ht.func, hg⟩, hlisted, fun b hb _ => hlisted b hb⟩
  obtain ⟨bs, hopen⟩ := hopen
  have hfinish : Ends (finishFunction line) env t fun u => u.LeavesOpen id [] :=
    (goes_finishFunction hopen ht.func rfl).ends
  refine (hfinish.and (steady_finishFunction line env t)).imp fun u ⟨⟨g, hbuilds, _, hclosed⟩, hu⟩ => ?_
  have hleads := Chains.trans ht hu
  refine ⟨hleads.depth, g, hbuilds.2, ?_, fun b hb => Option.isSome_iff_ne_none.2 fun hnone =>
    absurd (hclosed b hb hnone) List.not_mem_nil⟩
  have hlayout : g.layout ≠ [] := by
    obtain ⟨g', hg', hne⟩ := hu.settles.body id hbody
    exact Option.some.inj (hbuilds.2.symm.trans hg') ▸ hne
  exact {
    function := ⟨g.linkage, hbuilds.2⟩
    body := hlayout
    building := fun heq => hid (h.target hs id heq)
    startup := fun routine hroutine heq => by
      rcases hleads.startup horderly with hsame | ⟨hnone, -⟩
      · have hbefore : s.startup.map Startup.id = some id := by
          rw [← heq]
          exact hsame.symm.trans (congrArg (Option.map Startup.id) hroutine)
        obtain ⟨before, hstartup, rfl⟩ := Option.map_eq_some_iff.1 hbefore
        exact hid (h.startup before hstartup)
      · exact nomatch hnone }

end Bodies

end Lower

end TreeFlow
