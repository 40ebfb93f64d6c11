import TreeFlow.Proofs.Lowering.Layout

/-!
# Calls follow the structure

A call that gets to the beginning of a structured statement does what some execution of the statement
says, and then goes on where that execution leaves it (`Lower.Laid.explained`). The proof is by induction
on how the code of the statement lies in the function; for a loop it is by induction on the number of
passes, too, since every round takes a jump.
-/

namespace TreeFlow.Lower

open Machine Tree

variable {α : Type} {env : Env} {f : Function} {p : Program} {below : List Activation}
  {m m' m₀ m₁ : Moment} {n k : Nat} {tr : List Event} {L : Option LoopTargets}
  {P Q R : Spot} {E : List Event → Ending → Prop} {A : Spot → Ending → Prop} {step : Lower α} {a : α}

/-- A call follows the structure of a job: some execution of it explains what the call does. -/
abbrev Follows (env : Env) (f : Function) (p : Program) (below : List Activation) (job : Job)
    (L : Option LoopTargets) (Q : Option Spot) (n : Nat) (m m' : Moment) : Prop :=
  Explained env f p below (Executes env.tree job) (Arrives env f L Q) n m m'

/-! ### Single events -/

/-- Something is evaluated in a region, and then the call goes on. -/
theorem explained_of_region (ev : Event) (hr : Region env f step a P Q)
    (hf : p.module.function? m.call.func = some f) (hspot : m.spot = P) (hpasses : Passes p below n m m')
    (ht : Traces env f p below tr m₀ m)
    (hbegins : ∀ m₁, Begins env f p below step m m₁ → IsUnderway env f p below m m₁ ev)
    (hhappens : ∀ m₁, Crosses env f p below step a m m₁ → Happens env f p below m m₁ ev)
    (hcut : E tr .cut) (hcut' : E (tr ++ [ev]) .cut)
    (hnext : ∀ k m₁, k ≤ n → Traces env f p below (tr ++ [ev]) m₀ m₁ → m₁.spot = Q →
      p.module.function? m₁.call.func = some f → Passes p below k m₁ m' →
      Explained env f p below E A n m₀ m') :
    Explained env f p below E A n m₀ m' := by
  rcases hr.cases hf hspot hpasses with ⟨hunderway, hret⟩ | ⟨k, m₁, hk, hcrosses, hend, hrest⟩
  · exact .inl ⟨tr, m, hcut, ht, hret, .inr ⟨ev, hcut', hbegins _ hunderway⟩⟩
  · exact hnext k m₁ hk (ht.trans (.of_event (hhappens _ hcrosses))) hend (hcrosses.func ▸ hf) hrest

/-- A condition is evaluated in a region that ends with a choice, the choice is made, and then the call
goes on. -/
theorem explained_of_test {e : ExprId} {line : Nat} {op : Operand} {yes no : BlockId}
    (hr : Region env f (descend fun sub => truth sub e line) op P R) (hrest : R.rest = [])
    (hterm : f.termAt R.block = some (.branch op yes no))
    (hf : p.module.function? m.call.func = some f) (hspot : m.spot = P) (hpasses : Passes p below n m m')
    (ht : Traces env f p below tr m₀ m) (hcut : E tr .cut) (hcut' : E (tr ++ [.test e true]) .cut)
    (hnext : ∀ holds k m₁, k < n → Traces env f p below (tr ++ [.test e holds]) m₀ m₁ →
      m₁.spot = f.start (if holds then yes else no) → p.module.function? m₁.call.func = some f →
      Passes p below k m₁ m' → Explained env f p below E A n m₀ m') :
    Explained env f p below E A n m₀ m' := by
  rcases hr.cases hf hspot hpasses with ⟨hunderway, hret⟩ | ⟨k, m₁, hk, hcrosses, rfl, hpasses⟩
  · exact .inl ⟨tr, m, hcut, ht, hret, .inr ⟨_, hcut', line, hunderway⟩⟩
  replace hf := hcrosses.func ▸ hf
  rcases branch_cases hf hrest hterm hpasses with ⟨rfl, hret⟩ | ⟨holds, k, m₂, rfl, hdecides, hstart, hpasses⟩
  · -- The condition has been evaluated, and the choice is still to be made.
    obtain ⟨g, h, hcode, hthrough⟩ := hcrosses
    exact .inl ⟨tr, m, hcut, ht, hret, .inr ⟨_, hcut', line, op, g, h, _, hcode, hthrough⟩⟩
  · exact hnext holds k m₂ hk (ht.trans (.of_event ⟨line, op, m₁, hcrosses, hdecides⟩)) hstart
      (hdecides.1.func ▸ hf) hpasses

/-! ### Loops -/

section Loop

variable {cond loopStep : Option ExprId} {body : StmtId} {test first next last : BlockId}
  {Q : Option Spot}

/-- A round of a loop goes on with the step, and then in front of the condition. -/
theorem follows_next (hstep : StepsTo env f loopStep next test)
    (hloop : ∀ j m₁, j ≤ n → p.module.function? m₁.call.func = some f → m₁.spot = f.start test →
      Passes p below j m₁ m' →
      Follows env f p below (.loop cond loopStep body) L (some (f.start last)) j m₁ m')
    (hf : p.module.function? m.call.func = some f) (hspot : m.spot = f.start next)
    (hpasses : Passes p below n m m') :
    Follows env f p below (.next cond loopStep body) L (some (f.start last)) n m m' := by
  have hend : ∀ {tr j m₁}, j ≤ n → Traces env f p below tr m m₁ → stepping loopStep = tr →
      m₁.spot = f.start test → Passes p below j m₁ m' →
      Follows env f p below (.next cond loopStep body) L (some (f.start last)) n m m' := by
    rintro tr j m₁ hj ht rfl hspot hpasses
    exact (hloop j m₁ hj (ht.func ▸ hf) hspot hpasses).bind ht (fun _ h => .next h)
      fun tr' x m₂ k hx ht hA hk hrest => .inr ⟨_, x, m₂, k, .next hx, ht, hA, Nat.le_trans hk hj, hrest⟩
  cases loopStep with
  | none =>
    rcases Joins.cases hstep hf hspot hpasses with ⟨rfl, hret⟩ | ⟨j, m₁, hj, ht, hspot, hpasses⟩
    · exact .stay (.cut _) (.nil m) hret
    · exact hend hj ht rfl hspot hpasses
  | some e =>
    obtain ⟨v, R, hregion, hjoin⟩ := hstep
    refine explained_of_region (.value e) hregion hf hspot hpasses (.nil m) (fun _ h => h)
      (fun _ h => ⟨v, h⟩) (.cut _) (.next (.cut _)) fun j m₁ hj ht hspot hf hpasses => ?_
    rcases Joins.cases hjoin hf hspot hpasses with ⟨rfl, hret⟩ | ⟨k, m₂, hk, ht', hspot, hpasses⟩
    · exact .stay (.next (.cut _)) ht hret
    · exact hend (Nat.le_trans hk hj) (ht.trans ht') rfl hspot hpasses

/-- **A call follows the structure of a loop** if it follows that of the body, by induction on the number
of passes. -/
theorem follows_loop (htest : Tests env f cond test first last) (hjoin : Joins f Q next)
    (hstep : StepsTo env f loopStep next test)
    (hbody : ∀ n m, p.module.function? m.call.func = some f → m.spot = f.start first →
      Passes p below n m m' → Follows env f p below (.stmt body) (some ⟨last, next⟩) Q n m m')
    (hf : p.module.function? m.call.func = some f) (hspot : m.spot = f.start test)
    (hpasses : Passes p below n m m') :
    Follows env f p below (.loop cond loopStep body) L (some (f.start last)) n m m' := by
  induction n using Nat.strongRecOn generalizing m with
  | _ n ih =>
    -- The body has been left so that the loop goes on, and control is behind the round.
    have hround : ∀ {tr x j m₂}, j < n → Executes env.tree (.stmt body) tr x → x.goesOn = true →
        Traces env f p below (holding cond ++ tr) m m₂ → m₂.spot = f.start next →
        Passes p below j m₂ m' →
        Follows env f p below (.loop cond loopStep body) L (some (f.start last)) n m m' := by
      intro tr x j m₂ hj hbody hx ht hspot hpasses
      have hnext : Follows env f p below (.next cond loopStep body) L (some (f.start last)) j m₂ m' :=
        follows_next hstep (fun i m₃ hi hf hspot hpasses => ih i (Nat.lt_of_le_of_lt hi hj) hf hspot hpasses)
          (ht.func ▸ hf) hspot hpasses
      refine hnext.bind ht (fun tr' h => .round hbody hx h) fun tr' y m₃ k hy ht hA hk hrest => ?_
      exact .inr ⟨_, y, m₃, k, .round hbody hx hy, ht, hA, Nat.le_trans hk (Nat.le_of_lt hj), hrest⟩
    -- The condition held, if there is one, and control is in front of the body.
    have hfirst : ∀ {tr j m₁}, j < n → Traces env f p below tr m m₁ → holding cond = tr →
        m₁.spot = f.start first → Passes p below j m₁ m' →
        Follows env f p below (.loop cond loopStep body) L (some (f.start last)) n m m' := by
      rintro tr j m₁ hj ht rfl hspot hpasses
      refine (hbody j m₁ (ht.func ▸ hf) hspot hpasses).bind ht (fun tr h => .last h rfl)
        fun tr x m₂ k hx ht hA hk hpasses => ?_
      replace hk := Nat.lt_of_le_of_lt hk hj
      cases x with
      | normal =>
        obtain rfl := hA
        rcases Joins.cases hjoin (ht.func ▸ hf) rfl hpasses with ⟨rfl, hret⟩ | ⟨i, m₃, hi, ht', hspot, hpasses⟩
        · exact .stay (.atEnd (.round hx rfl (.cut _))) (by simpa using ht) hret
        · exact hround (Nat.lt_of_le_of_lt hi hk) hx rfl (by simpa using ht.trans ht') hspot hpasses
      | brk =>
        obtain ⟨T, hT, hspot⟩ := hA
        obtain rfl := Option.some.inj hT
        exact .inr ⟨_, _, m₂, k, .last hx rfl, ht, congrArg some hspot.symm, Nat.le_of_lt hk, hpasses⟩
      | cont =>
        obtain ⟨T, hT, hspot⟩ := hA
        obtain rfl := Option.some.inj hT
        exact hround hk hx rfl ht hspot hpasses
      | ret id => exact .inr ⟨_, _, m₂, k, .last hx rfl, ht, hA, Nat.le_of_lt hk, hpasses⟩
      | cut => exact hA.elim
    cases cond with
    | none =>
      obtain ⟨hrest, hterm⟩ := htest
      have hblock : m.spot.block = test := congrArg Spot.block hspot
      rcases goto_cases hf (hspot ▸ hrest) (hblock ▸ hterm) hpasses with
        ⟨rfl, hret⟩ | ⟨k, m₁, rfl, hjump, hspot, hpasses⟩
      · exact .stay (.cut _) (.nil m) hret
      · exact hfirst (Nat.lt_succ_self k) (.of_jump hjump) rfl hspot hpasses
    | some c =>
      obtain ⟨line, op, R, hregion, hrest, hterm⟩ := htest
      refine explained_of_test hregion hrest hterm hf hspot hpasses (.nil m) (.cut _)
        (.last (.cut _) rfl) fun holds k m₁ hk ht hspot hf hpasses => ?_
      cases holds with
      | true => exact hfirst hk ht rfl hspot hpasses
      | false =>
        exact .inr ⟨_, .normal, m₁, k, .stop, ht, congrArg some hspot.symm, Nat.le_of_lt hk, hpasses⟩

end Loop

/-! ### All tasks -/

/-- What becomes of a job whose executions are executions of another one. -/
theorem Explained.imp {E' : List Event → Ending → Prop} (h : Explained env f p below E A n m m')
    (himp : ∀ tr x, E tr x → E' tr x) : Explained env f p below E' A n m m' :=
  h.bind (.nil m) (fun _ h => himp _ _ h) fun _ x m₁ k hx ht hA hk hrest =>
    .inr ⟨_, x, m₁, k, himp _ _ hx, ht, hA, hk, hrest⟩

theorem Arrives.of_ne {Q Q' : Option Spot} {sp : Spot} {x : Ending} (h : Arrives env f L Q sp x)
    (hx : x ≠ .normal) : Arrives env f L Q' sp x := by
  cases x with
  | normal => exact absurd rfl hx
  | _ => exact h

/-- Behind an arm of a branch, control joins the block at the end. -/
theorem explained_of_joins {x : Ending} {b : BlockId} {Q : Option Spot} (hcut : E tr .cut) (hE : E tr x)
    (ht : Traces env f p below tr m m₁) (hA : Arrives env f L Q m₁.spot x) (hjoin : Joins f Q b)
    (hf : p.module.function? m.call.func = some f) (hk : k ≤ n) (hpasses : Passes p below k m₁ m') :
    Explained env f p below E (Arrives env f L (some (f.start b))) n m m' := by
  by_cases hx : x = .normal
  · subst hx
    obtain rfl := hA
    rcases Joins.cases hjoin (ht.func ▸ hf) rfl hpasses with ⟨rfl, hret⟩ | ⟨j, m₂, hj, ht', hspot, hpasses⟩
    · exact .stay hcut ht hret
    · exact .inr ⟨tr, .normal, m₂, j, hE, by simpa using ht.trans ht', congrArg some hspot.symm,
        Nat.le_trans hj hk, hpasses⟩
  · exact .inr ⟨tr, x, m₁, k, hE, ht, hA.of_ne hx, hk, hpasses⟩

/-- **A call that gets to the beginning of a structured statement follows its structure.** -/
theorem Laid.explained {job : Job} {start Q : Option Spot} (hl : Laid env f job L start Q)
    (hstart : start = some P) (hf : p.module.function? m.call.func = some f) (hspot : m.spot = P)
    (hpasses : Passes p below n m m') : Follows env f p below job L Q n m m' := by
  induction hl generalizing P n m with
  | dead => exact nomatch hstart
  | @expression id e line L P' Q v h hcode =>
    obtain rfl := Option.some.inj hstart
    refine explained_of_region (.value e) hcode hf hspot hpasses (.nil m) (fun _ h => h)
      (fun _ h => ⟨v, h⟩) (.cut _) (.atEnd (.expression h)) fun k m₁ hk ht hspot hf hpasses => ?_
    exact .inr ⟨_, .normal, m₁, k, .expression h, ht, congrArg some hspot.symm, hk, hpasses⟩
  | block h _ ih => exact (ih hstart hf hspot hpasses).imp fun _ _ hx => .block h hx
  | branch h hcode hrest hterm _ hjoin₁ _ hjoin₂ ihyes ihno =>
    obtain rfl := Option.some.inj hstart
    refine explained_of_test hcode hrest hterm hf hspot hpasses (.nil m) (.cut _) (.yes h (.cut _))
      fun holds k m₁ hk ht hspot hf' hpasses => ?_
    cases holds with
    | true =>
      exact (ihyes rfl hf' hspot hpasses).bind ht (fun _ hx => .yes h hx)
        fun tr x m₂ j hx ht hA hj hpasses => explained_of_joins (.atEnd (.yes h hx)) (.yes h hx) ht hA
          hjoin₁ hf (Nat.le_trans hj (Nat.le_of_lt hk)) hpasses
    | false =>
      exact (ihno rfl hf' hspot hpasses).bind ht (fun _ hx => .no h hx)
        fun tr x m₂ j hx ht hA hj hpasses => explained_of_joins (.atEnd (.no h hx)) (.no h hx) ht hA
          hjoin₂ hf (Nat.le_trans hj (Nat.le_of_lt hk)) hpasses
  | whileLoop h hjoin _ ih =>
    subst hstart
    rcases hjoin.cases hf hspot hpasses with ⟨rfl, hret⟩ | ⟨k, m₁, hk, ht, hspot, hpasses⟩
    · exact .stay (.cut _) (.nil m) hret
    · exact (ih rfl (ht.func ▸ hf) hspot hpasses).bind ht (fun _ hx => .whileLoop h hx)
        fun tr x m₂ j hx ht hA hj hrest =>
          .inr ⟨_, x, m₂, j, .whileLoop h hx, ht, hA, Nat.le_trans hj hk, hrest⟩
  | forLoop h _ hjoin _ ihinit ihloop =>
    refine (ihinit hstart hf hspot hpasses).bind (.nil m) (fun _ hx => .init h hx nofun)
      fun tr x m₁ k hx ht hA hk hpasses => ?_
    by_cases hnormal : x = .normal
    · subst hnormal
      obtain rfl := hA
      rcases hjoin.cases (ht.func ▸ hf) rfl hpasses with ⟨rfl, hret⟩ | ⟨j, m₂, hj, ht', hspot, hpasses⟩
      · exact .stay (.init h (.atEnd hx) nofun) ht hret
      · exact (ihloop rfl ((ht.trans ht').func ▸ hf) hspot hpasses).bind (ht.trans ht')
          (fun _ hy => by simpa using Executes.forLoop h hx hy) fun tr' y m₃ i hy ht hA hi hrest =>
            .inr ⟨_, y, m₃, i, by simpa using Executes.forLoop h hx hy, ht, hA,
              Nat.le_trans hi (Nat.le_trans hj hk), hrest⟩
    · exact .inr ⟨tr, x, m₁, k, .init h hx hnormal, ht, hA.of_ne hnormal, hk, hpasses⟩
  | @ret id value line L P' R h hreturns =>
    obtain rfl := Option.some.inj hstart
    obtain ⟨hclosed, hop, hcode⟩ := hreturns
    cases value with
    | none =>
      obtain rfl := hcode
      exact .inr ⟨[], .ret id, m, n, .ret h, .nil m, ⟨none, line, h, hspot ▸ hclosed, hspot ▸ hop⟩,
        Nat.le_refl n, hpasses⟩
    | some e =>
      obtain ⟨ty, o, hregion⟩ := hcode
      refine explained_of_region (.operand e) hregion hf hspot hpasses (.nil m)
        (fun _ h => ⟨ty, _, h⟩) (fun _ h => ⟨ty, _, o, h⟩) (.cut _) (.atEnd (.ret h))
        fun k m₁ hk ht hspot hf hpasses => ?_
      exact .inr ⟨_, .ret id, m₁, k, .ret h, ht, ⟨some e, line, h, hspot ▸ hclosed, hspot ▸ hop⟩, hk,
        hpasses⟩
  | @brk id line T P' h hrest hterm =>
    obtain rfl := Option.some.inj hstart
    subst hspot
    rcases goto_cases hf hrest hterm hpasses with ⟨rfl, hret⟩ | ⟨k, m₁, rfl, hjump, hspot, hpasses⟩
    · exact .stay (.cut _) (.nil m) hret
    · exact .inr ⟨[], .brk, m₁, k, .brk h, .of_jump hjump, ⟨T, rfl, hspot⟩, Nat.le_succ k, hpasses⟩
  | @cont id line T P' h hrest hterm =>
    obtain rfl := Option.some.inj hstart
    subst hspot
    rcases goto_cases hf hrest hterm hpasses with ⟨rfl, hret⟩ | ⟨k, m₁, rfl, hjump, hspot, hpasses⟩
    · exact .stay (.cut _) (.nil m) hret
    · exact .inr ⟨[], .cont, m₁, k, .cont h, .of_jump hjump, ⟨T, rfl, hspot⟩, Nat.le_succ k, hpasses⟩
  | declaration h _ ih => exact (ih hstart hf hspot hpasses).imp fun _ _ hx => .declaration h hx
  | seqNil =>
    obtain rfl := hstart
    exact .inr ⟨[], .normal, m, n, .seqNil, .nil m, congrArg some hspot.symm, Nat.le_refl n, hpasses⟩
  | seqCons _ _ ihfirst ihrest =>
    refine (ihfirst hstart hf hspot hpasses).bind (.nil m) (fun _ hx => .seqLeft hx nofun)
      fun tr x m₁ k hx ht hA hk hpasses => ?_
    by_cases hnormal : x = .normal
    · subst hnormal
      obtain rfl := hA
      exact (ihrest rfl (ht.func ▸ hf) rfl hpasses).bind ht (fun _ hy => .seqCons hx hy)
        fun tr' y m₂ j hy ht hA hj hrest =>
          .inr ⟨_, y, m₂, j, .seqCons hx hy, ht, hA, Nat.le_trans hj hk, hrest⟩
    · exact .inr ⟨tr, x, m₁, k, .seqLeft hx hnormal, ht, hA.of_ne hnormal, hk, hpasses⟩
  | declaratorsNil =>
    obtain rfl := hstart
    exact .inr ⟨[], .normal, m, n, .declaratorsNil, .nil m, congrArg some hspot.symm, Nat.le_refl n, hpasses⟩
  | @declaratorsCons d rest L P' R Q base hcode _ ih =>
    obtain rfl := Option.some.inj hstart
    refine explained_of_region (.declare d) hcode hf hspot hpasses (.nil m) (fun _ h => ⟨base, h⟩)
      (fun _ h => ⟨base, h⟩) (.cut _) (.declaratorsCons (.cut _)) fun k m₁ hk ht hspot hf hpasses => ?_
    exact (ih rfl hf hspot hpasses).bind ht (fun _ hx => .declaratorsCons hx)
      fun tr x m₂ j hx ht hA hj hrest =>
        .inr ⟨_, x, m₂, j, .declaratorsCons hx, ht, hA, Nat.le_trans hj hk, hrest⟩
  | loop htest _ hjoin hstep ih =>
    obtain rfl := Option.some.inj hstart
    exact follows_loop htest hjoin hstep (fun n m hf hspot hpasses => ih rfl hf hspot hpasses) hf hspot
      hpasses

end TreeFlow.Lower
