import TreeFlow.Lower.Basic
import TreeFlow.Proofs.Graph.Writing
import TreeFlow.Proofs.Scope.Frames

/-!
# What names stand for

A scope only holds positions and keys: of globals, functions, instructions and aggregates that lie in the
module. A name **resolves** if what it stands for is there and fits (`Lower.State.NamesResolve`).

The module is not only added to. Code that was built to look at it is thrown away again, while the scopes
stay or are brought back apart from it. What keeps names from dangling then is that such code declares
nothing but tags: a step that takes nothing away and declares no variable leaves all names resolved
(`Lower.State.Retains`, `Lower.State.NamesResolve.of_retains`).
-/

namespace TreeFlow

/-! ### Bindings -/

/-- What a variable or function stands for is there and has the type of the binding: a global or a function
of the module, or a stack slot of the function `here`. Where a name is given, a global or function has that
name. -/
inductive Binding.Anchored (m : Module) (here : Option FuncId) (name : Option String) (b : Binding) : Prop where
  | global {id : GlobalId} {ty : Ty} {g : Global} (haddr : b.addr = .const (.global id ty))
      (hg : m.global? id = some g) (hty : g.ty = b.ty) (hname : ∀ n ∈ name, g.name = n)
  | function {id : FuncId} {ty : Ty} {f : Function} (haddr : b.addr = .const (.function id ty))
      (hf : m.function? id = some f) (hty : Ty.ofSignature f.sig = b.ty) (hname : ∀ n ∈ name, f.name = n)
  | slot {x : InstId} {id : FuncId} {f : Function} (haddr : b.addr = .inst x) (hhere : here = some id)
      (hf : m.function? id = some f) (hx : f.inst? x = some ⟨.alloca b.ty, b.ty.pointerTo⟩)

namespace Binding.Anchored

variable {m n : Module} {here : Option FuncId} {name : Option String} {b : Binding}

theorem mono (h : b.Anchored m here name) (hmn : m.Retains n) : b.Anchored n here name := by
  cases h with
  | global haddr hg hty hname =>
    obtain ⟨g, hg', hgname, hgty⟩ := hmn.global _ _ hg
    exact .global haddr hg' (hgty.trans hty) fun n hn => hgname.trans (hname n hn)
  | function haddr hf hty hname =>
    obtain ⟨f, hf', hretains⟩ := hmn.function _ _ hf
    exact .function haddr hf' (by rw [hretains.sig, hty]) fun n hn => hretains.name.trans (hname n hn)
  | slot haddr hhere hf hx =>
    obtain ⟨f, hf', hretains⟩ := hmn.function _ _ hf
    exact .slot haddr hhere hf' (hretains.inst _ _ hx)

/-- Where no stack slot is at hand, a name stands for a constant. -/
theorem exists_const (h : b.Anchored m none name) : ∃ c, b.addr = .const c := by
  cases h with
  | global haddr => exact ⟨_, haddr⟩
  | function haddr => exact ⟨_, haddr⟩
  | slot _ hhere => exact nomatch hhere

/-- What is anchored outside of functions is anchored in all of them, under any name. -/
theorem inside (h : b.Anchored m none name) : b.Anchored m here none := by
  cases h with
  | global haddr hg hty => exact .global haddr hg hty (fun _ hn => nomatch hn)
  | function haddr hf hty => exact .function haddr hf hty (fun _ hn => nomatch hn)
  | slot _ hhere => exact nomatch hhere

end Binding.Anchored

namespace Builder

variable (b : Builder)

/-- A global that was just added is there. -/
theorem anchored_addGlobal (g : Global) :
    (Binding.ofVariable g.ty (b.addGlobal g).1).Anchored (b.addGlobal g).2.mod none (some g.name) := by
  have hg : (b.addGlobal g).2.mod.global? ⟨b.mod.globals.size⟩ = some g := by
    simp [addGlobal, Module.addGlobal, Module.global?]
  exact .global rfl hg rfl fun n hn => Option.some.inj hn

/-- A function that was just declared is there. -/
theorem anchored_declareFunction (name : String) (sig : Signature) (linkage : Linkage) :
    (Binding.ofFunction (.ofSignature sig) ((b.declareFunction name sig linkage).2.functionRef
      (b.declareFunction name sig linkage).1)).Anchored (b.declareFunction name sig linkage).2.mod none
        (some name) := by
  have hf : (b.declareFunction name sig linkage).2.mod.function? ⟨b.mod.functions.size⟩ =
      some { name, sig, linkage } := by
    simp [declareFunction, Module.addFunction, Module.function?]
  exact .function rfl hf rfl fun n hn => Option.some.inj hn

end Builder

namespace Lower

/-! ### States -/

/-- The tags of all frames refer to aggregates of their kind. -/
def State.TagsResolve (s : State) : Prop :=
  ∀ frame ∈ s.scopes.frames, ∀ kind, ∀ tag ∈ frame.tags kind,
    s.builder.mod.types.kindOf? tag.2 = some kind

/-- Whatever is declared stands for something that is there: the tags of all frames for aggregates of their
kind, the names outside of functions for globals and functions that have these names, and those inside of
the function at hand for globals, functions, and stack slots of that function. -/
structure State.NamesResolve (s : State) : Prop where
  tags : s.TagsResolve
  globalVars : ∀ entry ∈ s.scopes.global.vars, entry.2.Anchored s.builder.mod none (some entry.1)
  localVars : ∀ frame ∈ s.scopes.locals, ∀ entry ∈ frame.vars,
    entry.2.Anchored s.builder.mod (s.func.map OpenFunction.id) none

theorem State.namesResolve_initial (config : Config) : (State.initial config).NamesResolve where
  tags := by
    intro frame hframe kind tag htag
    obtain rfl : frame = {} := by simpa [ScopeStack.frames, State.initial] using hframe
    cases kind <;> exact absurd htag List.not_mem_nil
  globalVars _ h := absurd h List.not_mem_nil
  localVars _ h := absurd h List.not_mem_nil

/-- A step took nothing away, and it declared no variable. Tags still resolve, and the startup routine is the
same. -/
structure State.Retains (s t : State) : Prop where
  func : t.func = s.func
  building : t.builder.func = s.builder.func
  startup : t.startup.map Startup.id = s.startup.map Startup.id
  globals : t.scopes.global.vars = s.scopes.global.vars
  locals : t.scopes.locals.map Frame.vars = s.scopes.locals.map Frame.vars
  mod : s.builder.mod.Keeps s.builder.func t.builder.mod
  tags : s.TagsResolve → t.TagsResolve

namespace State.Retains

variable {s t u : State}

theorem trans (hst : s.Retains t) (htu : t.Retains u) : s.Retains u where
  func := htu.func.trans hst.func
  building := htu.building.trans hst.building
  startup := htu.startup.trans hst.startup
  globals := htu.globals.trans hst.globals
  locals := htu.locals.trans hst.locals
  mod := hst.mod.trans (hst.building ▸ htu.mod)
  tags h := htu.tags (hst.tags h)

/-- The builder did something, and nothing was declared. -/
theorem of_leads (hbuilder : s.builder.Leads t.builder) (hfunc : t.func = s.func)
    (hstartup : t.startup.map Startup.id = s.startup.map Startup.id) (hglobal : t.scopes.global = s.scopes.global) (hlocals : t.scopes.locals = s.scopes.locals) :
    s.Retains t where
  func := hfunc
  building := hbuilder.func
  startup := hstartup
  globals := by rw [hglobal]
  locals := by rw [hlocals]
  mod := hbuilder.mod
  tags h := by
    unfold TagsResolve ScopeStack.frames at h ⊢
    rwa [hglobal, hlocals, hbuilder.types]

/-- Nothing changed but what names have nothing to do with. -/
theorem of_same (hfunc : t.func = s.func) (hbuilder : t.builder = s.builder)
    (hstartup : t.startup.map Startup.id = s.startup.map Startup.id) (hglobal : t.scopes.global = s.scopes.global) (hlocals : t.scopes.locals = s.scopes.locals) :
    s.Retains t :=
  .of_leads (hbuilder ▸ ⟨rfl, rfl, .refl _ _⟩) hfunc hstartup hglobal hlocals

/-- A name for a type was declared. -/
theorem of_type (name : String) (ty : Ty) : s.Retains { s with scopes := s.scopes.defineType name ty } where
  func := rfl
  building := rfl
  startup := rfl
  globals := by cases hl : s.scopes.locals <;> simp [ScopeStack.defineType, ScopeStack.modifyTop, hl]
  locals := by cases hl : s.scopes.locals <;> simp [ScopeStack.defineType, ScopeStack.modifyTop, hl]
  mod := .refl _ _
  tags htags frame hframe kind tag htag := by
    rcases ScopeStack.mem_frames_modifyTop hframe with hold | rfl
    · exact htags frame hold kind tag htag
    · exact htags _ s.scopes.top_mem_frames kind tag (by cases kind <;> exact htag)

end State.Retains

namespace State.NamesResolve

variable {s : State} {name : String}

/-- What a tag is found to stand for is an aggregate of its kind. -/
theorem of_tag? {kind : AggregateKind} {key : String} (h : s.NamesResolve)
    (hfind : s.scopes.tag? kind name = some key) : s.builder.mod.types.kindOf? key = some kind := by
  obtain ⟨frame, hframe, full, hmem⟩ := ScopeStack.exists_of_find? hfind
  exact h.tags frame hframe kind (full, key) hmem

/-- What a variable or function is found to stand for is there and fits. -/
theorem of_var? {b : Binding} (h : s.NamesResolve) (hfind : s.scopes.var? name = some b) :
    b.Anchored s.builder.mod (s.func.map OpenFunction.id) none := by
  obtain ⟨frame, hframe, full, hmem⟩ := ScopeStack.exists_of_find? hfind
  rcases List.mem_cons.1 hframe with rfl | hlocal
  · exact (h.globalVars (full, b) hmem).inside
  · exact h.localVars frame hlocal (full, b) hmem

theorem of_globalVar? {b : Binding} (h : s.NamesResolve) (hfind : s.scopes.globalVar? name = some b) :
    b.Anchored s.builder.mod (s.func.map OpenFunction.id) none :=
  (h.globalVars (name, b) (mem_of_lookup hfind)).inside

end State.NamesResolve

/-- **Names that resolve still do when nothing was taken away.** -/
theorem State.NamesResolve.of_retains {s t : State} (h : s.NamesResolve) (hst : s.Retains t) :
    t.NamesResolve where
  tags := hst.tags h.tags
  globalVars entry hentry := by
    rw [hst.globals] at hentry
    exact (h.globalVars entry hentry).mono hst.mod.toRetains
  localVars frame hframe entry hentry := by
    have hvars : frame.vars ∈ s.scopes.locals.map Frame.vars := by
      rw [← hst.locals]
      exact List.mem_map_of_mem hframe
    obtain ⟨old, hold, hsame⟩ := List.mem_map.1 hvars
    rw [hst.func]
    exact (h.localVars old hold entry (hsame ▸ hentry)).mono hst.mod.toRetains

/-- The names of a snapshot resolve in what is built from there on. -/
theorem State.NamesResolve.snapshot {s : State} (h : s.NamesResolve) :
    State.NamesResolve { s with builder := s.builder.snapshot.2 } where
  tags frame hframe kind tag htag := by
    rw [Builder.types_snapshot]
    exact h.tags frame hframe kind tag htag
  globalVars entry hentry := (h.globalVars entry hentry).mono s.builder.retains_snapshot
  localVars frame hframe entry hentry := (h.localVars frame hframe entry hentry).mono s.builder.retains_snapshot

/-- Frames were opened, empty or as copies, or they were closed. -/
theorem State.NamesResolve.of_frames {s t : State} (h : s.NamesResolve) (hmod : t.builder.mod = s.builder.mod)
    (hglobal : t.scopes.global = s.scopes.global)
    (hlocals : ∀ frame ∈ t.scopes.locals, frame = {} ∨ frame ∈ s.scopes.locals ∧ t.func = s.func) :
    t.NamesResolve where
  tags frame hframe kind tag htag := by
    rw [hmod]
    rcases List.mem_cons.1 hframe with rfl | hlocal
    · exact h.tags _ List.mem_cons_self kind tag (hglobal ▸ htag)
    · rcases hlocals frame hlocal with rfl | ⟨hold, -⟩
      · cases kind <;> exact absurd htag List.not_mem_nil
      · exact h.tags frame (List.mem_cons_of_mem _ hold) kind tag htag
  globalVars entry hentry := by
    rw [hmod]
    exact h.globalVars entry (hglobal ▸ hentry)
  localVars frame hframe entry hentry := by
    rcases hlocals frame hframe with rfl | ⟨hold, hfunc⟩
    · exact absurd hentry List.not_mem_nil
    · rw [hmod, hfunc]
      exact h.localVars frame hold entry hentry

/-- A name that is anchored was declared in the innermost frame of a function. -/
theorem State.NamesResolve.defineVar {s : State} {b : Binding} (h : s.NamesResolve) (name : String)
    (hlocals : s.scopes.locals ≠ []) (hb : b.Anchored s.builder.mod (s.func.map OpenFunction.id) none) :
    State.NamesResolve { s with scopes := s.scopes.defineVar name b } where
  tags frame hframe kind tag htag := by
    rcases ScopeStack.mem_frames_modifyTop hframe with hold | rfl
    · exact h.tags frame hold kind tag htag
    · exact h.tags _ s.scopes.top_mem_frames kind tag (by cases kind <;> exact htag)
  globalVars entry hentry := by
    obtain ⟨top, below, hl⟩ := List.exists_cons_of_ne_nil hlocals
    refine h.globalVars entry ?_
    simpa [ScopeStack.defineVar, ScopeStack.modifyTop, hl] using hentry
  localVars frame hframe entry hentry := by
    obtain ⟨top, below, hl⟩ := List.exists_cons_of_ne_nil hlocals
    simp only [ScopeStack.defineVar, ScopeStack.modifyTop, hl, List.mem_cons] at hframe
    rcases hframe with rfl | hframe
    · rcases List.mem_cons.1 hentry with rfl | hentry
      · exact hb
      · exact h.localVars top (by simp [hl]) entry hentry
    · exact h.localVars frame (by simp [hl, hframe]) entry hentry

/-- A name that is anchored under its full form was declared outside of functions. -/
theorem State.NamesResolve.defineGlobalVar {s : State} {b : Binding} {name : String} (h : s.NamesResolve)
    (hb : b.Anchored s.builder.mod none (some (s.scopes.qualify name))) :
    State.NamesResolve { s with scopes := s.scopes.defineGlobalVar name b } where
  tags frame hframe kind tag htag := by
    rcases List.mem_cons.1 hframe with rfl | hlocal
    · exact h.tags _ List.mem_cons_self kind tag (by cases kind <;> exact htag)
    · exact h.tags frame (List.mem_cons_of_mem _ hlocal) kind tag htag
  globalVars entry hentry := by
    rcases List.mem_cons.1 hentry with rfl | hentry
    · exact hb
    · exact h.globalVars entry hentry
  localVars := h.localVars

end Lower

end TreeFlow
