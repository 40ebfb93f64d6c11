import TreeFlow.Proofs.Graph.Dominance
import Mathlib.Data.List.Nodup

/-!
# The order in which blocks are visited is sound

A block waits to be entered because a block that was entered but not left yet leads to it. When it is
entered it comes, in reverse post-order, behind all blocks that are not left yet, hence behind one that
leads to it. So whatever stands in the order of one walk, one block before it leads to it, unless it is
the root (`Function.Led`). This alone makes a walk pass the dominators of a block before the block:
going back from block to block draws a path from the root through blocks that were visited before. No
edge has to be known as a back edge, so loops with several entries are no exception.
-/

namespace TreeFlow

/-- The blocks that were entered but not left, the one entered last first. -/
def Errand.pending : List Errand → List BlockId
  | [] => []
  | .enter _ :: rest => pending rest
  | .leave id :: rest => id :: pending rest

theorem Errand.pending_enter_append (next : List BlockId) (rest : List Errand) :
    pending (next.map .enter ++ rest) = pending rest := by
  induction next with
  | nil => rfl
  | cons c next ih => exact ih

/-- The blocks entered on a walk, in the order they will have once all errands are done. -/
def Walk.entered (todo : List Errand) (w : Walk) : List BlockId :=
  (Errand.pending todo).reverse ++ w.order

namespace Function

variable {f : Function} {root b c e : BlockId} {before l : List BlockId}

/-! ### Lists that follow the edges -/

/-- Every block of a list is the root, or a block before it leads to it. -/
def Led (f : Function) (root : BlockId) : (before : List BlockId) → List BlockId → Prop
  | _, [] => True
  | before, b :: rest =>
    (b = root ∨ ∃ p ∈ before, b ∈ f.successors p) ∧ f.Led root (b :: before) rest

theorem Led.mono {before' : List BlockId} (h : f.Led root before l) (hsub : before ⊆ before') :
    f.Led root before' l := by
  induction l generalizing before before' with
  | nil => trivial
  | cons b l ih =>
    refine ⟨h.1.imp_right fun ⟨p, hp, hb⟩ => ⟨p, hsub hp, hb⟩, ih h.2 ?_⟩
    exact List.cons_subset_cons b hsub

theorem led_append {r : List BlockId} :
    f.Led root before (l ++ r) ↔ f.Led root before l ∧ f.Led root (l.reverse ++ before) r := by
  induction l generalizing before with
  | nil => simp [Led]
  | cons b l ih => simp [Led, ih, and_assoc]

/-- What follows the edges from a root stays where the root is, if no edge leads out of there. -/
theorem Led.subset {S : List BlockId} (h : f.Led root before l) (hroot : root ∈ S)
    (hbefore : before ⊆ S) (hS : ∀ b ∈ S, ∀ c ∈ f.successors b, c ∈ S) : l ⊆ S := by
  induction l generalizing before with
  | nil => exact List.nil_subset S
  | cons b l ih =>
    have hb : b ∈ S := by
      rcases h.1 with rfl | ⟨p, hp, hpb⟩
      · exact hroot
      · exact hS p (hbefore hp) b hpb
    exact List.cons_subset.2 ⟨hb, ih h.2 (List.cons_subset.2 ⟨hb, hbefore⟩)⟩

/-- From the entry there is a path to every block of the list that leads only through blocks before
it. The induction is on how many there are. -/
theorem Led.exists_path (he : f.entry? = some e) {pre post : List BlockId}
    (h : f.Led e [] (pre ++ b :: post)) : ∃ rest, f.Path (b :: rest) ∧ rest ⊆ pre := by
  induction hn : pre.length using Nat.strongRecOn generalizing pre post b with
  | _ n ih =>
  have hb : b = e ∨ ∃ p ∈ pre, b ∈ f.successors p := by
    simpa using (led_append.1 h).2.1
  rcases hb with rfl | ⟨p, hp, hpb⟩
  · exact ⟨[], .entry he, List.nil_subset pre⟩
  · obtain ⟨first, second, rfl⟩ := List.append_of_mem hp
    have hshort : first.length < n := by simp [← hn]
    rw [List.append_assoc, List.cons_append] at h
    obtain ⟨rest, path, hrest⟩ := ih first.length hshort h rfl
    refine ⟨p :: rest, .step path hpb, List.cons_subset.2 ⟨hp, fun q hq => ?_⟩⟩
    exact List.mem_append_left _ (hrest hq)

/-! ### What a walk keeps true -/

/-- Whatever waits to be entered is the root, or a block that is left later leads to it. -/
def Awaited (f : Function) (root : BlockId) : List Errand → Prop
  | [] => True
  | .enter c :: rest =>
    (c = root ∨ ∃ p ∈ Errand.pending rest, c ∈ f.successors p) ∧ f.Awaited root rest
  | .leave _ :: rest => f.Awaited root rest

theorem Awaited.enter {p : BlockId} {next : List BlockId} {rest : List Errand}
    (h : f.Awaited root rest) (hp : p ∈ Errand.pending rest)
    (hnext : ∀ c ∈ next, c ∈ f.successors p) : f.Awaited root (next.map .enter ++ rest) := by
  induction next with
  | nil => exact h
  | cons c next ih =>
    have hp' : p ∈ Errand.pending (next.map .enter ++ rest) := by
      rwa [Errand.pending_enter_append]
    exact ⟨.inr ⟨p, hp', hnext c List.mem_cons_self⟩, ih fun d hd => hnext d (.tail c hd)⟩

/-- The state of a walk from a root, after other walks that entered the blocks `seen`. -/
structure Walks (f : Function) (root : BlockId) (seen : List BlockId) (todo : List Errand)
    (w : Walk) : Prop where
  led : f.Led root [] (w.entered todo)
  awaited : f.Awaited root todo
  nodup : (w.entered todo).Nodup
  visited : ∀ b, b ∈ w.visited ↔ b ∈ seen ∨ b ∈ w.entered todo
  fresh : ∀ b ∈ w.entered todo, b ∉ seen
  closed : ∀ b ∈ w.entered todo, ∀ c ∈ f.successors b, c ∈ w.visited ∨ .enter c ∈ todo
  root : root ∈ w.visited ∨ .enter root ∈ todo

namespace Walks

variable {seen : List BlockId} {rest : List Errand} {w : Walk} {id : BlockId}

theorem start (f : Function) (root : BlockId) (seen : List BlockId) :
    f.Walks root seen [.enter root] ⟨seen, []⟩ where
  led := trivial
  awaited := ⟨.inl rfl, trivial⟩
  nodup := List.nodup_nil
  visited b := by simp [Walk.entered, Errand.pending]
  fresh b hb := by simp [Walk.entered, Errand.pending] at hb
  closed b hb := by simp [Walk.entered, Errand.pending] at hb
  root := .inr List.mem_cons_self

/-- Leaving a block only puts it where it stands in the order. -/
theorem leave (h : f.Walks root seen (.leave id :: rest) w) :
    f.Walks root seen rest { w with order := id :: w.order } := by
  have hentered : Walk.entered rest { w with order := id :: w.order } =
      w.entered (.leave id :: rest) := by
    simp [Walk.entered, Errand.pending]
  exact {
    led := hentered ▸ h.led
    awaited := h.awaited
    nodup := hentered ▸ h.nodup
    visited := hentered ▸ h.visited
    fresh := hentered ▸ h.fresh
    closed := fun b hb c hc => by simpa using h.closed b (hentered ▸ hb) c hc
    root := by simpa using h.root }

/-- A block that was entered before is not entered again. -/
theorem skip (h : f.Walks root seen (.enter id :: rest) w) (hid : id ∈ w.visited) :
    f.Walks root seen rest w := by
  have hwait : ∀ c, c ∈ w.visited ∨ Errand.enter c ∈ Errand.enter id :: rest →
      c ∈ w.visited ∨ Errand.enter c ∈ rest := by
    rintro c (hv | hmem)
    · exact .inl hv
    · rcases List.mem_cons.1 hmem with heq | hmem
      · exact .inl ((Errand.enter.inj heq).symm ▸ hid)
      · exact .inr hmem
  exact { h with
    awaited := h.awaited.2
    closed := fun b hb c hc => hwait c (h.closed b hb c hc)
    root := hwait root h.root }

/-- A block that is entered comes behind those that are not left yet, and one of these leads to it. -/
theorem enter (h : f.Walks root seen (.enter id :: rest) w) (hid : id ∉ w.visited) :
    f.Walks root seen
      (((f.successors id).filter (· ∉ id :: w.visited)).map .enter ++ .leave id :: rest)
      { w with visited := id :: w.visited } := by
  set next := (f.successors id).filter (· ∉ id :: w.visited) with hnext
  have hentered : Walk.entered (next.map .enter ++ .leave id :: rest)
      { w with visited := id :: w.visited } = (Errand.pending rest).reverse ++ id :: w.order := by
    simp [Walk.entered, Errand.pending_enter_append, Errand.pending]
  have hmem : ∀ b, b ∈ (Errand.pending rest).reverse ++ id :: w.order ↔
      b = id ∨ b ∈ w.entered (.enter id :: rest) := by
    simp [Walk.entered, Errand.pending, or_left_comm]
  have hnew : id ∉ seen ∧ id ∉ w.entered (.enter id :: rest) := by
    simpa [not_or] using mt (h.visited id).2 hid
  have hwait : ∀ c, Errand.enter c ∈ Errand.enter id :: rest → c ∈ id :: w.visited ∨
      Errand.enter c ∈ next.map .enter ++ .leave id :: rest := by
    intro c hc
    rcases List.mem_cons.1 hc with heq | hc
    · exact .inl (Errand.enter.inj heq ▸ List.mem_cons_self)
    · exact .inr (by simp [hc])
  constructor
  case led =>
    obtain ⟨hled, hrest⟩ := led_append.1 h.led
    rw [hentered, led_append]
    refine ⟨hled, ?_, hrest.mono (List.subset_cons_self ..)⟩
    simpa [Errand.pending] using h.awaited.1
  case awaited =>
    have hawaited : f.Awaited root (.leave id :: rest) := h.awaited.2
    have hpending : id ∈ Errand.pending (.leave id :: rest) := List.mem_cons_self
    exact hawaited.enter hpending fun c hc => List.mem_of_mem_filter hc
  case nodup =>
    rw [hentered, List.nodup_middle]
    exact List.nodup_cons.2 ⟨hnew.2, h.nodup⟩
  case visited =>
    intro b
    rw [hentered, hmem, List.mem_cons, h.visited]
    exact or_left_comm
  case fresh =>
    intro b hb
    rw [hentered, hmem] at hb
    rcases hb with rfl | hb
    · exact hnew.1
    · exact h.fresh b hb
  case closed =>
    intro b hb c hc
    rw [hentered, hmem] at hb
    rcases hb with rfl | hb
    · by_cases hv : c ∈ b :: w.visited
      · exact .inl hv
      · have hmem : c ∈ next := List.mem_filter.2 ⟨hc, decide_eq_true hv⟩
        exact .inr (by simp [hmem])
    · rcases h.closed b hb c hc with hv | hmem
      · exact .inl (.tail id hv)
      · exact hwait c hmem
  case root =>
    rcases h.root with hv | hmem
    · exact .inl (.tail id hv)
    · exact hwait root hmem

/-- Doing what is to be done, until nothing is left. -/
theorem walk {todo : List Errand} (h : f.Walks root seen todo w) :
    f.Walks root seen [] (f.walk todo w) := by
  induction todo, w using Function.walk.induct f with
  | case1 w => rwa [Function.walk]
  | case2 id rest w ih =>
    rw [Function.walk]
    exact ih h.leave
  | case3 id rest w hid ih =>
    rw [Function.walk, if_pos hid]
    exact ih (h.skip hid)
  | case4 id rest w hid visited next ih =>
    rw [Function.walk, if_neg hid]
    exact ih (h.enter hid)

end Walks

/-! ### All walks of a function -/

/-- The state between two walks. -/
structure Covers (f : Function) (w : Walk) : Prop where
  nodup : w.order.Nodup
  visited : ∀ b, b ∈ w.visited ↔ b ∈ w.order
  closed : ∀ b ∈ w.order, ∀ c ∈ f.successors b, c ∈ w.order
  within : w.order ⊆ f.layout

/-- All jumps of laid out blocks go to laid out blocks. -/
def JumpsInside (f : Function) : Prop := ∀ b ∈ f.layout, ∀ c ∈ f.successors b, c ∈ f.layout

instance : Decidable f.JumpsInside :=
  inferInstanceAs (Decidable (∀ b ∈ f.layout, ∀ c ∈ f.successors b, c ∈ f.layout))

variable {w : Walk}

theorem covers_empty (f : Function) : f.Covers {} where
  nodup := List.nodup_nil
  visited _ := Iff.rfl
  closed _ hb := absurd hb List.not_mem_nil
  within := List.nil_subset _

/-- A walk from one more root adds what it enters behind all that was entered before. -/
theorem Covers.walkRoot (h : f.Covers w) (hjumps : f.JumpsInside) (hroot : root ∈ f.layout) :
    f.Covers (f.walkRoot w root) ∧ root ∈ (f.walkRoot w root).order ∧
      ∃ later, f.Led root [] later ∧ (f.walkRoot w root).order = w.order ++ later := by
  by_cases hseen : root ∈ w.visited
  · rw [Function.walkRoot, if_pos hseen]
    exact ⟨h, (h.visited root).1 hseen, [], trivial, (List.append_nil _).symm⟩
  rw [Function.walkRoot, if_neg hseen]
  obtain ⟨hled, -, hnodup, hvisited, hfresh, hclosed, hentered⟩ :=
    (Walks.start f root w.visited).walk
  set after := f.walk [.enter root] ⟨w.visited, []⟩
  have horder : after.entered [] = after.order := rfl
  have hmem : ∀ b, b ∈ after.visited ↔ b ∈ w.order ++ after.order := by
    simp [hvisited, h.visited, horder]
  refine ⟨⟨?_, hmem, fun b hb c hc => ?_, List.append_subset.2 ⟨h.within, ?_⟩⟩,
    (hmem root).1 (by simpa using hentered), after.order, hled, rfl⟩
  · refine h.nodup.append hnodup fun b hb hb' => hfresh b hb' ((h.visited b).2 hb)
  · rcases List.mem_append.1 hb with hb | hb
    · exact List.mem_append_left _ (h.closed b hb c hc)
    · exact (hmem c).1 (by simpa using hclosed b hb c hc)
  · exact hled.subset hroot (List.nil_subset _) hjumps

/-- Walks from several roots, one after the other. -/
theorem Covers.foldl (h : f.Covers w) (hjumps : f.JumpsInside) {roots : List BlockId}
    (hroots : roots ⊆ f.layout) :
    f.Covers (roots.foldl f.walkRoot w) ∧ roots ⊆ (roots.foldl f.walkRoot w).order ∧
      w.order <+: (roots.foldl f.walkRoot w).order := by
  induction roots generalizing w with
  | nil => exact ⟨h, List.nil_subset _, List.prefix_rfl⟩
  | cons root roots ih =>
    obtain ⟨hroot, hroots⟩ := List.cons_subset.1 hroots
    obtain ⟨hcovers, hmem, later, -, horder⟩ := h.walkRoot hjumps hroot
    obtain ⟨hcovers', hsub, hgrows⟩ := ih hcovers hroots
    refine ⟨hcovers', List.cons_subset.2 ⟨hgrows.subset hmem, hsub⟩, ?_⟩
    exact (List.prefix_append w.order later).trans (horder ▸ hgrows)

/-- Blocks that no jump leaves hold all that is reachable, if the entry is among them. -/
theorem Reachable.mem {S : List BlockId} (h : f.Reachable b) (he : f.entry? = some e)
    (hentry : e ∈ S) (hS : ∀ b ∈ S, ∀ c ∈ f.successors b, c ∈ S) : b ∈ S := by
  obtain ⟨rest, path⟩ := h
  generalize hl : b :: rest = l at path
  induction path generalizing b rest with
  | entry h' =>
    obtain ⟨rfl, -⟩ := List.cons_eq_cons.1 hl
    obtain rfl : e = b := by simpa [he] using h'
    exact hentry
  | step path edge ih =>
    obtain ⟨rfl, -⟩ := List.cons_eq_cons.1 hl
    exact hS _ (ih _ rfl) _ edge

/-- The walk from the entry visits what is reachable and nothing else. Only the rest of the order is
left to the other roots. -/
theorem exists_visitOrder_eq (hjumps : f.JumpsInside) (he : f.entry? = some e) :
    ∃ first later, f.visitOrder = first ++ later ∧ f.Led e [] first ∧
      ∀ b, f.Reachable b ↔ b ∈ first := by
  obtain ⟨roots, hlayout⟩ : ∃ roots, f.layout = e :: roots := List.head?_eq_some_iff.1 he
  have hmem : e ∈ f.layout := hlayout ▸ List.mem_cons_self
  obtain ⟨hcovers, hentry, first, hled, hfirst⟩ := (covers_empty f).walkRoot hjumps hmem
  have hroots : roots ⊆ f.layout := hlayout ▸ List.subset_cons_self e roots
  obtain ⟨-, -, later, hlater⟩ := hcovers.foldl hjumps hroots
  rw [hfirst, List.nil_append] at hentry hlater
  refine ⟨first, later, ?_, hled, fun b => ⟨fun hb => ?_, fun hb => ?_⟩⟩
  · rw [visitOrder, hlayout, List.foldl_cons, hlater]
  · refine hb.mem he hentry fun b hb c hc => ?_
    simpa [hfirst] using hcovers.closed b (by simpa [hfirst] using hb) c hc
  · obtain ⟨pre, post, rfl⟩ := List.append_of_mem hb
    obtain ⟨rest, path, -⟩ := hled.exists_path he
    exact ⟨rest, path⟩

/-- Every laid out block is visited once, and no other. -/
theorem nodup_visitOrder (hjumps : f.JumpsInside) :
    f.visitOrder.Nodup ∧ ∀ b, b ∈ f.visitOrder ↔ b ∈ f.layout := by
  obtain ⟨hcovers, hsub, -⟩ := (covers_empty f).foldl hjumps (List.Subset.refl f.layout)
  exact ⟨hcovers.nodup, fun b => ⟨fun hb => hcovers.within hb, fun hb => hsub hb⟩⟩

/-- What is visited before a reachable block is reachable, and the dominators of the block are among
it. -/
theorem exists_visitOrder_split (hjumps : f.JumpsInside) (hb : f.Reachable b) :
    ∃ pre post, f.visitOrder = pre ++ b :: post ∧ (∀ c ∈ pre, f.Reachable c) ∧
      ∀ d, d ≠ b → f.Dominates d b → d ∈ pre := by
  obtain ⟨e, he⟩ : ∃ e, f.entry? = some e := by
    obtain ⟨rest, path⟩ := hb
    generalize b :: rest = l at path
    induction path with
    | entry h => exact ⟨_, h⟩
    | step _ _ ih => exact ih
  obtain ⟨first, later, horder, hled, hreachable⟩ := exists_visitOrder_eq hjumps he
  obtain ⟨pre, post, rfl⟩ := List.append_of_mem ((hreachable b).1 hb)
  refine ⟨pre, post ++ later, by simpa using horder, fun c hc => ?_, fun d hne hd => ?_⟩
  · exact (hreachable c).2 (List.mem_append_left _ hc)
  · obtain ⟨rest, path, hrest⟩ := hled.exists_path he
    exact hrest ((List.mem_cons.1 (hd rest path)).resolve_left hne)

end Function

end TreeFlow
