import TreeFlow.Proofs.Lowering.Names

/-!
# Functions that nobody writes to any more

Code goes to the function that is being built. Between functions that is the startup routine or none, and
inside of a function it is that one. So a function with a body that is neither is left alone
(`State.Settled`), for only a function without a body is given one.

A step leaves alone what is settled, takes no body away, and keeps all blocks laid out (`State.Settles`).
-/

namespace TreeFlow.Lower

/-- The function has a body. -/
def State.HasBody (s : State) (id : FuncId) : Prop :=
  ∃ f, s.builder.mod.function? id = some f ∧ f.layout ≠ []

theorem State.not_hasBody {s : State} {id : FuncId} {f : Function} (hf : s.builder.mod.function? id = some f)
    (hdeclaration : f.isDeclaration) : ¬ s.HasBody id := by
  rintro ⟨g, hg, hne⟩
  obtain rfl := Option.some.inj (hf.symm.trans hg)
  exact hne (List.isEmpty_iff.1 hdeclaration)

/-- All blocks are laid out, and the startup routine has a body. -/
structure State.IsOrderly (s : State) : Prop where
  listed : s.builder.mod.IsListed
  startup : ∀ routine, s.startup = some routine → s.HasBody routine.id

/-- The function is complete: it has the given code, and it is not being built. -/
structure State.Settled (s : State) (id : FuncId) (f : Function) : Prop where
  function : ∃ linkage, s.builder.mod.function? id = some { f with linkage }
  body : f.layout ≠ []
  building : s.builder.func ≠ some id
  startup : ∀ routine, s.startup = some routine → routine.id ≠ id

theorem State.Settled.hasBody {s : State} {id : FuncId} {f : Function} (h : s.Settled id f) : s.HasBody id :=
  have ⟨_, hf⟩ := h.function
  ⟨_, hf, h.body⟩

/-- A step took no code away, and it wrote to no function that is complete. -/
structure State.Settles (s t : State) : Prop where
  body : ∀ id, s.HasBody id → t.HasBody id
  orderly : s.IsOrderly → t.IsOrderly
  settled : ∀ id f, s.Settled id f → t.Settled id f

namespace State.Settles

variable {s t u : State}

theorem trans (hst : s.Settles t) (htu : t.Settles u) : s.Settles u where
  body id h := htu.body id (hst.body id h)
  orderly h := htu.orderly (hst.orderly h)
  settled id f h := htu.settled id f (hst.settled id f h)

/-- The module is a later stage, written to where code is written, and the startup routine is the same one. -/
theorem of_keeps (hmod : s.builder.mod.Keeps s.builder.func t.builder.mod)
    (hbuilding : t.builder.func = s.builder.func)
    (hstartup : t.startup.map Startup.id = s.startup.map Startup.id) : s.Settles t := by
  have hbody : ∀ id, s.HasBody id → t.HasBody id := fun id ⟨f, hf, hne⟩ => hmod.body id f hf hne
  have hroutine : ∀ routine, t.startup = some routine →
      ∃ before, s.startup = some before ∧ before.id = routine.id := fun routine ht =>
    Option.map_eq_some_iff.1 (by rw [← hstartup, ht]; rfl)
  exact {
    body := hbody
    orderly := fun h => ⟨hmod.listed h.listed, fun routine ht =>
      have ⟨before, hs, hid⟩ := hroutine routine ht
      hid ▸ hbody _ (h.startup before hs)⟩
    settled := fun id f h => {
      function :=
        have ⟨linkage, hf⟩ := h.function
        hmod.elsewhere id { f with linkage } h.building hf
      body := h.body
      building := hbuilding ▸ h.building
      startup := fun routine ht =>
        have ⟨before, hs, hid⟩ := hroutine routine ht
        hid ▸ h.startup before hs } }

/-- Nothing changed but what functions have nothing to do with. -/
theorem of_same (hbuilder : t.builder = s.builder) (hstartup : t.startup.map Startup.id = s.startup.map Startup.id) :
    s.Settles t := .of_keeps (hbuilder ▸ .refl _ _) (by rw [hbuilder]) hstartup

theorem refl (s : State) : s.Settles s := .of_same rfl rfl

/-- Another function is built from now on, which is none that was complete. -/
theorem setFunction (hst : s.Settles t) {id : Option FuncId} (hbuilder : u.builder = t.builder.setFunction id)
    (hstartup : u.startup = t.startup) (hid : ∀ i f, s.Settled i f → id ≠ some i) : s.Settles u := by
  obtain ⟨builder, scopes, diags, lvalue, loops, func, pending, startup⟩ := u
  obtain rfl := hbuilder
  obtain rfl := hstartup
  exact {
    body := hst.body
    orderly := fun h => ⟨(hst.orderly h).listed, (hst.orderly h).startup⟩
    settled := fun i f h =>
      have ht := hst.settled i f h
      ⟨ht.function, ht.body, hid i f h, ht.startup⟩ }

theorem of_retains (h : s.Retains t) : s.Settles t := .of_keeps h.mod h.building h.startup

end State.Settles

end TreeFlow.Lower
