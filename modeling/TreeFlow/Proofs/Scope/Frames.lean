import TreeFlow.Scope.Stack

/-!
# Open frames

A name is found in a frame that is open (`ScopeStack.exists_of_find?`), though not every open frame is
looked at: the frames between the innermost one and the global one are seen through their copies. A
declaration changes the innermost frame alone (`ScopeStack.mem_frames_modifyTop`).
-/

namespace TreeFlow

/-- What is found among names is there. -/
theorem mem_of_lookup {α : Type} {names : Names α} {name : String} {a : α}
    (h : names.lookup name = some a) : (name, a) ∈ names := by
  induction names with
  | nil => simp at h
  | cons entry rest ih =>
    obtain ⟨key, value⟩ := entry
    rw [List.lookup_cons] at h
    split at h
    · next heq =>
      obtain rfl : name = key := by simpa using heq
      exact Option.some.inj h ▸ List.mem_cons_self
    · exact List.mem_cons_of_mem _ (ih h)

/-- Names that are not looked for may stand in front of the others. -/
theorem findSome?_lookup_append {α : Type} {forms : List String} {front : Names α}
    (h : ∀ full ∈ forms, front.lookup full = none) (names : Names α) :
    (forms.findSome? fun full => (front ++ names).lookup full) = forms.findSome? fun full => names.lookup full := by
  induction forms with
  | nil => rfl
  | cons full forms ih =>
    rw [List.findSome?_cons, List.findSome?_cons, List.lookup_append, h full List.mem_cons_self, Option.none_or,
      ih fun other hother => h other (List.mem_cons_of_mem _ hother)]

namespace ScopeStack

variable {s t : ScopeStack}

/-- All frames that are open, seen or not. -/
def frames (s : ScopeStack) : List Frame := s.global :: s.locals

theorem top_mem_frames (s : ScopeStack) : s.top ∈ s.frames := by
  cases hl : s.locals <;> simp [top, frames, hl]

/-! ### Looking up -/

/-- Names are only looked up in open frames. -/
theorem visible_subset_frames (s : ScopeStack) : s.visible ⊆ s.frames := by
  intro frame hframe
  cases hl : s.locals with
  | nil => simpa [visible, frames, hl] using hframe
  | cons top below =>
    rw [visible, hl] at hframe
    simp only [List.mem_cons, List.not_mem_nil, or_false] at hframe
    rcases hframe with rfl | rfl <;> simp [frames, hl]

/-- A name that is found was declared in one of the open frames, under one of its forms. -/
theorem exists_of_find? {α : Type} {names : Frame → Names α} {name : String} {a : α}
    (h : s.find? names name = some a) : ∃ frame ∈ s.frames, ∃ full, (full, a) ∈ names frame := by
  obtain ⟨frame, hframe, hfound⟩ := List.exists_of_findSome?_eq_some h
  obtain ⟨full, -, hlookup⟩ := List.exists_of_findSome?_eq_some hfound
  exact ⟨frame, s.visible_subset_frames hframe, full, mem_of_lookup hlookup⟩

/-- Names are looked up in the innermost frame, and only then outside of functions. -/
theorem find?_eq_or {α : Type} (s : ScopeStack) (names : Frame → Names α) (x : String) :
    s.find? names x = ((s.path.candidates x).findSome? ((names s.top).lookup ·)).or
      ((s.path.candidates x).findSome? ((names s.global).lookup ·)) := by
  cases hlocals : s.locals with
  | nil => simp [find?, visible, top, hlocals]
  | cons top below =>
    simp only [find?, visible, ScopeStack.top, hlocals, List.findSome?_cons, List.findSome?_nil, List.headD_cons]
    cases (s.path.candidates x).findSome? ((names top).lookup ·) with
    | none => cases (s.path.candidates x).findSome? ((names s.global).lookup ·) <;> rfl
    | some a => rfl

/-! ### Declaring -/

/-- A change of the innermost frame leaves every other frame as it is. -/
theorem mem_frames_modifyTop {change : Frame → Frame} {frame : Frame}
    (h : frame ∈ (s.modifyTop change).frames) : frame ∈ s.frames ∨ frame = change s.top := by
  cases hl : s.locals with
  | nil =>
    simp only [modifyTop, hl, frames, List.mem_cons, List.not_mem_nil, or_false] at h
    exact .inr (by simp [h, top, hl])
  | cons top below =>
    simp only [modifyTop, hl, frames, List.mem_cons] at h
    rcases h with rfl | rfl | h
    · exact .inl List.mem_cons_self
    · exact .inr (by simp [ScopeStack.top, hl])
    · exact .inl (by simp [frames, hl, h])

@[simp] theorem path_modifyTop (change : Frame → Frame) : (s.modifyTop change).path = s.path := by
  cases hl : s.locals <;> simp [modifyTop, hl]

@[simp] theorem labels_modifyTop (change : Frame → Frame) : (s.modifyTop change).labels = s.labels := by
  cases hl : s.locals <;> simp [modifyTop, hl]

/-! ### Binding tags -/

/-- Tags are bound in the innermost frame, in front of those that are bound there already. -/
def bindTags (s : ScopeStack) (structs unions : Names String) : ScopeStack :=
  s.modifyTop fun f => { f with structs := structs ++ f.structs, unions := unions ++ f.unions }

variable {structs unions : Names String}

@[simp] theorem bindTags_nil (s : ScopeStack) : s.bindTags [] [] = s := by
  obtain ⟨global, locals, labels, path⟩ := s
  cases locals <;> rfl

theorem bindTags_bindTags (s : ScopeStack) (structs unions structs' unions' : Names String) :
    (s.bindTags structs unions).bindTags structs' unions' =
      s.bindTags (structs' ++ structs) (unions' ++ unions) := by
  cases hl : s.locals <;> simp [bindTags, modifyTop, hl]

theorem exists_bindTags_eq_defineTag (s : ScopeStack) (kind : AggregateKind) (name key : String) :
    ∃ structs unions, s.defineTag kind name key = s.bindTags structs unions := by
  cases kind with
  | struct => exact ⟨[(s.qualify name, key)], [], by simp [defineTag, bindTags]⟩
  | union => exact ⟨[], [(s.qualify name, key)], by simp [defineTag, bindTags]⟩

@[simp] theorem path_bindTags : (s.bindTags structs unions).path = s.path := s.path_modifyTop _

@[simp] theorem labels_bindTags : (s.bindTags structs unions).labels = s.labels := s.labels_modifyTop _

/-- Whatever is found besides tags is found as before. -/
theorem find?_bindTags {α : Type} {names : Frame → Names α}
    (hnames : ∀ f structs unions, names { f with structs, unions } = names f) (name : String) :
    (s.bindTags structs unions).find? names name = s.find? names name := by
  cases hl : s.locals <;> simp [bindTags, modifyTop, find?, visible, List.findSome?_cons, hl, hnames]

@[simp] theorem var?_bindTags (name : String) : (s.bindTags structs unions).var? name = s.var? name :=
  find?_bindTags (fun _ _ _ => rfl) name

@[simp] theorem type?_bindTags (name : String) : (s.bindTags structs unions).type? name = s.type? name :=
  find?_bindTags (fun _ _ _ => rfl) name

@[simp] theorem label?_bindTags (name : String) : (s.bindTags structs unions).label? name = s.label? name := by
  simp [label?]

theorem globalVars_bindTags : (s.bindTags structs unions).global.vars = s.global.vars := by
  cases hl : s.locals <;> simp [bindTags, modifyTop, hl]

theorem localVars_bindTags :
    (s.bindTags structs unions).locals.map Frame.vars = s.locals.map Frame.vars := by
  cases hl : s.locals <;> simp [bindTags, modifyTop, hl]

/-! ### Opening and closing -/

/-- The frame of a function is only opened where there is none. -/
theorem openFunction_eq_ok (h : s.openFunction = .ok t) :
    s.locals = [] ∧ { s with locals := [{}], labels := [] } = t := by
  rw [openFunction] at h
  split at h
  · next hnil => exact ⟨hnil, Except.ok.inj h⟩
  · cases h

theorem closeFunction_eq_ok (h : s.closeFunction = .ok t) : { s with locals := [], labels := [] } = t := by
  rw [closeFunction] at h
  split at h
  · cases h
  · exact Except.ok.inj h
  · cases h

/-- A label is placed under its full name. -/
theorem defineLabel_eq_ok {name : String} {block : BlockId} (h : s.defineLabel name block = .ok t) :
    { s with labels := (s.qualify name, block) :: s.labels } = t := by
  rw [defineLabel] at h
  split at h
  · exact Except.ok.inj h
  · cases h

/-- A block begins as a copy of the frame around it. -/
theorem openLocal_eq_ok (h : s.openLocal = .ok t) :
    ∃ top below, s.locals = top :: below ∧ { s with locals := top :: s.locals } = t := by
  rw [openLocal] at h
  split at h
  · cases h
  · next top below hl => exact ⟨top, below, hl, Except.ok.inj h⟩

/-- A block is only closed where there is a frame around it. -/
theorem closeLocal_eq_ok (h : s.closeLocal = .ok t) :
    ∃ top next below, s.locals = top :: next :: below ∧ { s with locals := next :: below } = t := by
  rw [closeLocal] at h
  split at h
  · cases h
  · cases h
  · next top below hone hl =>
    cases below with
    | nil => exact absurd rfl hone
    | cons next below => exact ⟨top, next, below, hl, Except.ok.inj h⟩

end ScopeStack

/-! ### What holds of all that is declared -/

/-- All types of a frame have one property, and all its variables another one. -/
structure Frame.All (T : Ty → Prop) (V : Binding → Prop) (f : Frame) : Prop where
  types : ∀ entry ∈ f.types, T entry.2
  vars : ∀ entry ∈ f.vars, V entry.2

/-- All types that names stand for have one property, and all variables another one. -/
def ScopeStack.All (T : Ty → Prop) (V : Binding → Prop) (s : ScopeStack) : Prop := ∀ frame ∈ s.frames, frame.All T V

section All

variable {T : Ty → Prop} {V : Binding → Prop} {s t : ScopeStack} {name : String} {b : Binding} {ty : Ty}

theorem Frame.all_empty : Frame.All T V {} := ⟨List.forall_mem_nil _, List.forall_mem_nil _⟩

namespace ScopeStack.All

theorem empty : ScopeStack.All T V {} := List.forall_mem_singleton.2 Frame.all_empty

theorem of_var? (h : s.All T V) (hfind : s.var? name = some b) : V b := by
  obtain ⟨frame, hframe, full, hmem⟩ := exists_of_find? hfind
  exact (h frame hframe).vars _ hmem

theorem of_globalVar? (h : s.All T V) (hfind : s.globalVar? name = some b) : V b :=
  (h s.global List.mem_cons_self).vars _ (mem_of_lookup hfind)

theorem of_type? (h : s.All T V) (hfind : s.type? name = some ty) : T ty := by
  obtain ⟨frame, hframe, full, hmem⟩ := exists_of_find? hfind
  exact (h frame hframe).types _ hmem

theorem modifyTop (h : s.All T V) {change : Frame → Frame} (hchange : ∀ f, f.All T V → (change f).All T V) :
    (s.modifyTop change).All T V := fun frame hframe => by
  rcases mem_frames_modifyTop hframe with hold | rfl
  · exact h frame hold
  · exact hchange _ (h _ s.top_mem_frames)

theorem defineVar (h : s.All T V) (hb : V b) : (s.defineVar name b).All T V :=
  h.modifyTop fun _ hf => ⟨hf.types, List.forall_mem_cons.2 ⟨hb, hf.vars⟩⟩

theorem defineType (h : s.All T V) (hty : T ty) : (s.defineType name ty).All T V :=
  h.modifyTop fun _ hf => ⟨List.forall_mem_cons.2 ⟨hty, hf.types⟩, hf.vars⟩

theorem bindTags (h : s.All T V) (structs unions : Names String) : (s.bindTags structs unions).All T V :=
  h.modifyTop fun _ hf => ⟨hf.types, hf.vars⟩

theorem defineTag (h : s.All T V) (kind : AggregateKind) (name key : String) : (s.defineTag kind name key).All T V := by
  obtain ⟨structs, unions, heq⟩ := s.exists_bindTags_eq_defineTag kind name key
  exact heq ▸ h.bindTags structs unions

theorem defineGlobalVar (h : s.All T V) (hb : V b) : (s.defineGlobalVar name b).All T V := by
  have hglobal := h s.global List.mem_cons_self
  exact List.forall_mem_cons.2 ⟨⟨hglobal.types, List.forall_mem_cons.2 ⟨hb, hglobal.vars⟩⟩,
    (List.forall_mem_cons.1 h).2⟩

theorem defineLabel {block : BlockId} (h : s.All T V) (hdefine : s.defineLabel name block = .ok t) : t.All T V := by
  obtain rfl := defineLabel_eq_ok hdefine
  exact h

theorem openLocal (h : s.All T V) (hopen : s.openLocal = .ok t) : t.All T V := by
  obtain ⟨top, below, hl, rfl⟩ := openLocal_eq_ok hopen
  obtain ⟨hglobal, hlocals⟩ := List.forall_mem_cons.1 h
  exact List.forall_mem_cons.2 ⟨hglobal, List.forall_mem_cons.2 ⟨hlocals top (hl ▸ List.mem_cons_self), hlocals⟩⟩

theorem closeLocal (h : s.All T V) (hclose : s.closeLocal = .ok t) : t.All T V := by
  obtain ⟨top, next, below, hl, rfl⟩ := closeLocal_eq_ok hclose
  obtain ⟨hglobal, hlocals⟩ := List.forall_mem_cons.1 h
  exact List.forall_mem_cons.2 ⟨hglobal, fun f hf => hlocals f (hl ▸ List.mem_cons_of_mem _ hf)⟩

theorem openFunction (h : s.All T V) (hopen : s.openFunction = .ok t) : t.All T V := by
  obtain ⟨-, rfl⟩ := openFunction_eq_ok hopen
  exact List.forall_mem_cons.2 ⟨(List.forall_mem_cons.1 h).1, List.forall_mem_singleton.2 Frame.all_empty⟩

theorem closeFunction (h : s.All T V) (hclose : s.closeFunction = .ok t) : t.All T V := by
  obtain rfl := closeFunction_eq_ok hclose
  exact List.forall_mem_singleton.2 (List.forall_mem_cons.1 h).1

end ScopeStack.All

end All

end TreeFlow
