import TreeFlow.Proofs.Lowering.TypedStatement

/-!
# Variables with external linkage

Outside of functions a variable gets a global of its own only if its full name is new, and the name stands for that
global from then on (`Way.globalVar?`). A foreign variable in a function means that global, too, if it is declared
after it and with the same type. Otherwise it gets a global of its own, of which later declarations outside of
functions know nothing (`Event.foreign`).

So every global with external linkage either is what its name stands for outside of functions, or it was made by a
foreign declaration in a function (`Way.shares`). **Two globals with external linkage and one name come from nothing
but such a declaration** (`Way.eq_of_name_eq`).
-/

namespace TreeFlow.Lower

variable {s t u : State} {events : List Event}

/-! ### What names stand for -/

/-- The variable that a global with external linkage is, under the full name that it has. -/
def State.Names (s : State) (id : GlobalId) (g : Global) : Prop :=
  s.scopes.globalVar? g.name = some (.ofVariable g.ty (Constant.global id g.pointerTy))

/-- A declaration of a new name leaves all others as they are. -/
theorem globalVar?_defineGlobalVar {scopes : ScopeStack} {name full : String} {b b' : Binding}
    (hnew : scopes.globalVar? (scopes.qualify name) = none) (h : scopes.globalVar? full = some b) :
    (scopes.defineGlobalVar name b').globalVar? full = some b := by
  have hne : full ≠ scopes.qualify name := fun heq => Option.some_ne_none b (h.symm.trans (heq ▸ hnew))
  rw [ScopeStack.globalVar?, ScopeStack.defineGlobalVar, List.lookup_cons, beq_false_of_ne hne]
  exact h

theorem globalVar?_defineGlobalVar_self (scopes : ScopeStack) (name : String) (b : Binding) :
    (scopes.defineGlobalVar name b).globalVar? (scopes.qualify name) = some b := by
  rw [ScopeStack.globalVar?, ScopeStack.defineGlobalVar, List.lookup_cons, beq_self_eq_true]

/-- In a function nothing is declared outside of functions. -/
theorem global_modifyTop {scopes : ScopeStack} (h : scopes.locals ≠ []) (change : Frame → Frame) :
    (scopes.modifyTop change).global = scopes.global := by
  obtain ⟨top, below, hlocals⟩ := List.exists_cons_of_ne_nil h
  simp [ScopeStack.modifyTop, hlocals]

/-- **A move changes nothing that a name stands for outside of functions.** -/
theorem Move.globalVar? (h : Move s events t) {full : String} {b : Binding} (hb : s.scopes.globalVar? full = some b) :
    t.scopes.globalVar? full = some b := by
  cases h with
  | peeks h =>
    obtain ⟨structs, unions, hscopes⟩ := h.scopes
    rw [hscopes, ScopeStack.globalVar?, ScopeStack.globalVars_bindTags]
    exact hb
  | place _ _ hplace =>
    obtain rfl := ScopeStack.defineLabel_eq_ok hplace
    exact hb
  | openBlock hopen =>
    obtain ⟨top, below, -, rfl⟩ := ScopeStack.openLocal_eq_ok hopen
    exact hb
  | closeBlock hclose =>
    obtain ⟨top, next, below, -, rfl⟩ := ScopeStack.closeLocal_eq_ok hclose
    exact hb
  | typeName name ty =>
    cases hlocals : s.scopes.locals <;> simpa [ScopeStack.defineType, ScopeStack.modifyTop, ScopeStack.globalVar?, hlocals]
  | localName hlocals name b' =>
    rw [ScopeStack.defineVar, ScopeStack.globalVar?, global_modifyTop hlocals]
    exact hb
  | «variable» hname hnew => exact globalVar?_defineGlobalVar (hname ▸ hnew) hb
  | function hnew => exact globalVar?_defineGlobalVar hnew hb
  | enterStartup _ h => exact h.scopes ▸ hb
  | _ => exact hb

/-- **What a name stands for outside of functions, it stands for ever after.** -/
theorem Way.globalVar? (h : Way s events t) {full : String} {b : Binding} (hb : s.scopes.globalVar? full = some b) :
    t.scopes.globalVar? full = some b := by
  induction h with
  | refl => exact hb
  | step _ hmove ih => exact hmove.globalVar? ih

/-! ### Globals with external linkage -/

/-- A global that was not there before a move is internal, or it is what its name stands for outside of functions, or it
was made for a foreign variable. -/
theorem Move.exists_before (h : Move s events t) {id : GlobalId} {g : Global} (hg : t.builder.mod.global? id = some g)
    (hexternal : g.linkage = .external) :
    (∃ f, s.builder.mod.global? id = some f ∧ f.name = g.name ∧ f.ty = g.ty ∧ f.linkage = .external) ∨
      .foreign id ∈ events ∨ t.Names id g := by
  -- What was added at the end is the only global that can be new.
  have hadded : ∀ k : Global, (s.builder.addGlobal k).2.mod.global? id = some g →
      s.builder.mod.global? id = some g ∨ id = ⟨s.builder.mod.globals.size⟩ ∧ g = k := fun k hk => by
    have hlast := Array.getElem?_push.symm.trans hk
    split at hlast
    · next heq =>
      obtain ⟨index⟩ := id
      exact .inr ⟨congrArg _ heq, (Option.some.inj hlast).symm⟩
    · exact .inl hlast
  have hsame : s.builder.mod.global? id = some g →
      ∃ f, s.builder.mod.global? id = some f ∧ f.name = g.name ∧ f.ty = g.ty ∧ f.linkage = .external :=
    fun hold => ⟨g, hold, rfl, rfl, hexternal⟩
  cases h with
  | peeks h =>
    obtain ⟨more, hmore, hinternal⟩ := h.mod.globals
    rw [Module.global?, hmore, Array.getElem?_append] at hg
    split at hg
    · exact .inl (hsame hg)
    · exact absurd ((hinternal g (Array.mem_of_getElem? hg)).symm.trans hexternal) Linkage.noConfusion
  | foreign =>
    rcases hadded _ hg with hold | ⟨rfl, -⟩
    · exact .inl (hsame hold)
    · exact .inr (.inl (List.mem_singleton.2 rfl))
  | @«variable» name k hname hnew =>
    rcases hadded _ hg with hold | ⟨rfl, rfl⟩
    · exact .inl (hsame hold)
    · refine .inr (.inr ?_)
      rw [State.Names, hname]
      exact globalVar?_defineGlobalVar_self _ _ _
  | modifyGlobal changed hname hty hlinkage =>
    rw [Module.global?, Module.modifyGlobal, Array.getElem?_modify] at hg
    split at hg
    · obtain ⟨f, hf, rfl⟩ := Option.map_eq_some_iff.1 hg
      exact .inl ⟨f, hf, (hname f).symm, (hty f).symm, (hlinkage f).symm.trans hexternal⟩
    · exact .inl (hsame hg)
  | enterStartup _ h =>
    rw [Module.global?, h.globals] at hg
    exact .inl (hsame hg)
  | _ => exact .inl (hsame hg)

/-- **Every global with external linkage is what its name stands for outside of functions**, unless it was made for a
foreign variable in a function. -/
theorem Way.shares {config : Config} (h : Way (.initial config) events t) {id : GlobalId} {g : Global}
    (hg : t.builder.mod.global? id = some g) (hexternal : g.linkage = .external) : .foreign id ∈ events ∨ t.Names id g := by
  generalize hs : State.initial config = s at h
  induction h generalizing g with
  | refl =>
    subst hs
    simp [State.initial, Builder.ofName, Module.global?] at hg
  | step _ hmove ih =>
    rw [List.mem_append, or_assoc]
    rcases hmove.exists_before hg hexternal with ⟨f, hf, hname, hty, hlinkage⟩ | hnew
    · refine (ih hf hlinkage).imp_right fun hnamed => .inr ?_
      rw [State.Names, hname, hty, Global.pointerTy, hty] at hnamed
      exact hmove.globalVar? hnamed
    · exact .inr hnew

/-- **One external name, one storage**, as far as no foreign variable in a function got a global of its own: if two
globals with external linkage have one name, one of them was made so. -/
theorem Way.eq_of_name_eq {config : Config} (h : Way (.initial config) events t) {id other : GlobalId} {g k : Global}
    (hg : t.builder.mod.global? id = some g) (hk : t.builder.mod.global? other = some k)
    (hexternal : g.linkage = .external) (hexternal' : k.linkage = .external) (hname : g.name = k.name) :
    id = other ∨ .foreign id ∈ events ∨ .foreign other ∈ events := by
  rcases h.shares hg hexternal with hforeign | hid
  · exact .inr (.inl hforeign)
  · rcases h.shares hk hexternal' with hforeign | hother
    · exact .inr (.inr hforeign)
    · rw [State.Names, hname] at hid
      have haddr := congrArg Binding.addr (Option.some.inj (hid.symm.trans hother))
      injection haddr with haddr
      injection haddr with hsame
      exact .inl hsame

/-! ### Declarations of one name -/

section Declarations

variable {env : Env} {name again : String} {storage storage' : Storage} {ty ty' : Ty} {hasInit hasInit' : Bool}
  {line line' : Nat} {addr addr' : Constant}

/-- A name that was declared already means the same storage again. -/
theorem eq_of_globalAddress {b : Binding} (hb : s.scopes.globalVar? (s.scopes.qualify name) = some b)
    (hrun : globalAddress name storage ty hasInit line env s = (.done addr, t)) : b = .ofVariable ty addr ∧ t = s := by
  simp only [globalAddress, Bind.bind, Lower.bind, read, hb] at hrun
  split at hrun
  · next hsame =>
    simp only [Bool.and_eq_true, Bool.not_eq_true', beq_iff_eq] at hsame
    obtain ⟨own, address, isFunction⟩ := b
    obtain ⟨rfl, rfl⟩ : isFunction = false ∧ own = ty := hsame
    cases address with
    | const c =>
      obtain ⟨heq, rfl⟩ := Prod.mk.inj hrun
      obtain rfl := Outcome.done.inj heq
      exact ⟨rfl, rfl⟩
    | _ => cases hrun
  · cases hrun

/-- A name that was declared stands for the address that its declaration came to. -/
theorem globalVar?_of_globalAddress (hrun : globalAddress name storage ty hasInit line env s = (.done addr, t)) :
    t.scopes.globalVar? (s.scopes.qualify name) = some (.ofVariable ty addr) := by
  cases hknown : s.scopes.globalVar? (s.scopes.qualify name) with
  | some b =>
    obtain ⟨rfl, rfl⟩ := eq_of_globalAddress hknown hrun
    exact hknown
  | none =>
    obtain ⟨_, _, ⟨⟩, hrun⟩ := bind_eq_done hrun
    simp only [hknown] at hrun
    obtain ⟨_, _, ⟨⟩, hrun⟩ := bind_eq_done hrun
    obtain ⟨_, _, ⟨⟩, hrun⟩ := bind_eq_done hrun
    cases hrun
    exact globalVar?_defineGlobalVar_self _ _ _

/-- **Two declarations outside of functions mean one storage**, if they give the same full name, whatever is lowered in
between. -/
theorem Way.globalAddress_eq (h : Way t events u)
    (hfirst : globalAddress name storage ty hasInit line env s = (.done addr, t))
    (hname : u.scopes.qualify again = s.scopes.qualify name) {v : State}
    (hsecond : globalAddress again storage' ty' hasInit' line' env u = (.done addr', v)) :
    addr' = addr ∧ ty' = ty ∧ v = u := by
  have hknown := h.globalVar? (globalVar?_of_globalAddress hfirst)
  obtain ⟨heq, hv⟩ := eq_of_globalAddress (hname ▸ hknown) hsecond
  injection heq with hty haddr
  injection haddr with haddr
  exact ⟨haddr.symm, hty.symm, hv⟩

/-- **A foreign variable in a function means what is declared outside of functions**, if that comes first and has the
same type. No global is added for it. -/
theorem Way.foreignLocal_eq (h : Way t events u)
    (hfirst : globalAddress name storage ty hasInit line env s = (.done addr, t))
    (hname : again = s.scopes.qualify name) :
    foreignLocal again ty env u = (.done (), { u with scopes := u.scopes.defineVar again (.ofVariable ty addr) }) := by
  have hknown := h.globalVar? (globalVar?_of_globalAddress hfirst)
  have hmeant : (some (Binding.ofVariable ty addr)).filter (fun b => !b.isFunction && b.ty == ty) =
      some (.ofVariable ty addr) := by simp [Binding.ofVariable]
  simp only [foreignLocal, Bind.bind, Lower.bind, read, hname, hknown, hmeant]
  rfl

end Declarations

end TreeFlow.Lower
