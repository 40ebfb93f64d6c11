import TreeFlow.Proofs.Lowering.Layout
import TreeFlow.Proofs.Lowering.Site

/-!
# From sites to the finished function

While structured statements are lowered, code is only written to new blocks, to the block that is open at
the cursor, and to blocks that were made to wait for it (`Site.Advances`). When the function is finished
(`Site.Becomes`), every other open block is closed without another instruction. So what was written
between two sites is a region of the finished function (`Site.Becomes.region`).
-/

namespace TreeFlow.Lower.Site

variable {α : Type} {env : Env} {x y z : Site} {f : Function} {b c d : BlockId} {V W : List BlockId}

/-! ### Later sites -/

/-- Code was only written to new blocks, to the block that was open at the cursor, and to the blocks `W`
that waited for it. -/
structure Advances (W : List BlockId) (x y : Site) : Prop where
  id : y.id = x.id
  ext : x.function.Extends x.parents y.function y.parents
  frozen : ∀ b, x.function.Has b → x.openBlock ≠ some b → b ∉ W →
    y.function.codeAt b = x.function.codeAt b ∧ y.function.termAt b = x.function.termAt b
  place : ∀ d, y.openBlock = some d → x.function.Has d → x.openBlock = some d ∨ d ∈ W

namespace Advances

theorem refl (W : List BlockId) (x : Site) : Advances W x x :=
  ⟨rfl, .refl _ _, fun _ _ _ _ => ⟨rfl, rfl⟩, fun _ hd _ => .inl hd⟩

theorem mono (h : Advances V x y) (hVW : V ⊆ W) : Advances W x y :=
  ⟨h.id, h.ext, fun b hb hcur hW => h.frozen b hb hcur fun hV => hW (hVW hV),
    fun d hd hold => (h.place d hd hold).imp_right fun hV => hVW hV⟩

theorem trans (hxy : Advances W x y) (hyz : Advances W y z) : Advances W x z where
  id := hyz.id.trans hxy.id
  ext := hxy.ext.trans hyz.ext
  frozen b hb hcur hW := by
    have hcur' : y.openBlock ≠ some b := fun heq => (hxy.place b heq hb).elim hcur hW
    obtain ⟨hcode, hterm⟩ := hxy.frozen b hb hcur hW
    obtain ⟨hcode', hterm'⟩ := hyz.frozen b (hxy.ext.has b hb) hcur' hW
    exact ⟨hcode'.trans hcode, hterm'.trans hterm⟩
  place d hd hold := by
    rcases hyz.place d hd (hxy.ext.has d hold) with hcur | hW
    · exact hxy.place d hcur hold
    · exact .inr hW

/-- Whatever is done with blocks that were not there yet counts as work on new blocks. -/
theorem forget (h : Advances (V ++ W) x y) (hnew : ∀ b ∈ V, ¬ x.function.Has b) : Advances W x y where
  id := h.id
  ext := h.ext
  frozen b hb hcur hW :=
    h.frozen b hb hcur fun hmem => (List.mem_append.1 hmem).elim (fun hV => hnew b hV hb) hW
  place d hd hold := (h.place d hd hold).imp_right fun hmem =>
    (List.mem_append.1 hmem).resolve_left fun hV => hnew d hV hold

end Advances

theorem Spans.advances (h : x.Spans y) : Advances [] x y where
  id := h.id
  ext := h.grows.toExtends
  frozen b hb hcur _ := h.grows.frozen b hb (Ne.symm hcur)
  place _ hd hold := .inl (h.place hd hold)

/-- The blocks `W` wait for their code: they are there, and not at the cursor. -/
def Waits (W : List BlockId) (x : Site) : Prop :=
  ∀ b ∈ W, x.function.Has b ∧ x.openBlock ≠ some b

theorem Waits.advance (h : Waits W x) (hxy : Advances V x y) (hV : ∀ b ∈ W, b ∉ V) : Waits W y :=
  fun b hb => ⟨hxy.ext.has b (h b hb).1,
    fun heq => (hxy.place b heq (h b hb).1).elim (h b hb).2 (hV b hb)⟩

/-! ### The finished function -/

/-- What the function that is being written at a site becomes in the end. Blocks that are open and
neither at the cursor nor waiting are closed as they are. -/
structure Becomes (W : List BlockId) (x : Site) (f : Function) : Prop where
  precedes : x.function.Precedes f
  idle : ∀ b, x.function.Has b → x.function.termAt b = none → x.openBlock ≠ some b → b ∉ W →
    f.codeAt b = x.function.codeAt b ∧ f.termAt b = some .unreachable
  entry : f.entry? = x.function.entry?
  plain : ∀ b, f.entry? ≠ some b → f.instsAt b = f.codeAt b

/-- The spot in the finished function that a site has got to. -/
def spot (x : Site) (f : Function) : Option Spot := x.openBlock.map (f.behind x.function)

theorem Keeps.spot (h : x.Keeps y) (f : Function) : y.spot f = x.spot f := by
  rw [Site.spot, Site.spot, h.openBlock, h.function]

theorem function?_builder (x : Site) : x.state.builder.function? = some x.function := by
  rw [Builder.function?, x.builds.1]
  exact x.builds.2

theorem spot?_builder (x : Site) (f : Function) : x.state.builder.spot? f = x.spot f := by
  rw [Builder.spot?, x.function?_builder]
  rfl

namespace Becomes

theorem mono (h : Becomes V x f) (hVW : V ⊆ W) : Becomes W x f :=
  ⟨h.precedes, fun b hb hopen hcur hW => h.idle b hb hopen hcur fun hV => hW (hVW hV), h.entry, h.plain⟩

/-- What becomes of a later site becomes of an earlier one. -/
theorem of_advances (h : Becomes W y f) (hxy : Advances W x y) : Becomes W x f where
  precedes := hxy.ext.precedes.trans h.precedes
  idle b hb hopen hcur hW := by
    obtain ⟨hcode, hterm⟩ := hxy.frozen b hb hcur hW
    have hcur' : y.openBlock ≠ some b := fun heq => (hxy.place b heq hb).elim hcur hW
    obtain ⟨hcode', hterm'⟩ := h.idle b (hxy.ext.has b hb) (hterm.trans hopen) hcur' hW
    exact ⟨hcode'.trans hcode, hterm'⟩
  entry := h.entry.trans hxy.ext.entry
  plain := h.plain

/-- The code that was written between two sites is only left at its end. -/
theorem encloses (h : Becomes W y f) (hxy : x.Spans y) (hW : Waits W x) (hc : x.openBlock = some c)
    (hd : y.openBlock = some d) : x.function.Encloses y.function f c d := by
  obtain ⟨-, hopen⟩ := openBlock_eq_some_iff.1 hc
  obtain ⟨-, hopen'⟩ := openBlock_eq_some_iff.1 hd
  -- A block of the region neither waits nor is at the cursor, unless it is the last one.
  have hidle : ∀ b, x.function.Since c b → y.function.Has b → b ≠ d → y.function.termAt b = none →
      f.codeAt b = y.function.codeAt b ∧ f.termAt b = some .unreachable := by
    intro b hsince hb hne hterm
    refine h.idle b hb hterm (fun heq => hne (Option.some.inj (heq.symm.trans hd))) fun hmem => ?_
    obtain ⟨hold, hcur⟩ := hW b hmem
    rcases hsince with rfl | hnew
    · exact hcur hc
    · exact hnew hold
  have hnone : ∀ b, x.function.Since c b → x.function.termAt b = none := by
    rintro b (rfl | hnew)
    · exact hopen
    · exact Function.termAt_of_not_has hnew
  exact {
    first := hxy.grows.toExtends.precedes
    second := h.precedes
    has := has_openBlock hc
    isOpen := hopen
    has_end := has_openBlock hd
    isOpen_end := hopen'
    since_end := by
      obtain ⟨d', hd', hplace, -⟩ := hxy.exists_open hc
      obtain rfl : d' = d := Option.some.inj (hd'.symm.trans hd)
      exact hplace
    code := fun b hsince hb hne => by
      cases hterm : y.function.termAt b with
      | none => exact (hidle b hsince hb hne hterm).1
      | some t => exact (h.precedes.closed b t hterm).1
    exits := fun b hsince hb hne e he => by
      obtain ⟨t, ht, het⟩ := Function.mem_successors_iff.1 he
      cases hterm : y.function.termAt b with
      | none =>
        obtain rfl := Option.some.inj (ht.symm.trans (hidle b hsince hb hne hterm).2)
        exact absurd het List.not_mem_nil
      | some t' =>
        obtain rfl := Option.some.inj (ht.symm.trans (h.precedes.closed b t' hterm).2)
        have hedge : e ∈ y.function.successors b := Function.mem_successors_iff.2 ⟨t, hterm, het⟩
        refine ⟨rfl, ?_, y.wellFormed.has_successor b e hedge⟩
        exact (hxy.grows.edge b e hedge).resolve_left (by simp [Function.successors_of_termAt_none (hnone b hsince)])
    stays := fun b hsince hb hne op hret => by
      cases hterm : y.function.termAt b with
      | none => exact nomatch hret.symm.trans (hidle b hsince hb hne hterm).2
      | some t =>
        obtain rfl := Option.some.inj (hret.symm.trans (h.precedes.closed b t hterm).2)
        rcases hxy.grows.onward b _ hterm with hold | hne
        · exact nomatch hold.symm.trans (hnone b hsince)
        · exact hne rfl
    plain := fun b hnew _ => by
      refine h.plain b fun heq => hnew ?_
      rw [h.entry, hxy.grows.entry] at heq
      exact x.wellFormed.has_entry heq }

/-- **What a step has written is a region of the finished function.** -/
theorem region {m : Lower α} {a : α} {P : Spot} (h : Becomes W y f)
    (hrun : m env x.state = (.done a, y.state)) (hxy : x.Spans y) (hW : Waits W x)
    (hP : x.spot f = some P) : ∃ Q, y.spot f = some Q ∧ Region env f m a P Q := by
  obtain ⟨c, hc, rfl⟩ := Option.map_eq_some_iff.1 hP
  obtain ⟨d, hd, -⟩ := hxy.exists_open hc
  have hQ : y.spot f = some (f.behind y.function d) := by
    rw [spot, hd]
    rfl
  refine ⟨_, hQ, x.function, y.function, c, d, ?_, h.encloses hxy hW hc hd, rfl, rfl⟩
  exact ⟨x.state, y.state, hrun, x.function?_builder, y.function?_builder, h.precedes,
    (x.spot?_builder f).trans hP, (y.spot?_builder f).trans hQ⟩

end Becomes

end TreeFlow.Lower.Site
