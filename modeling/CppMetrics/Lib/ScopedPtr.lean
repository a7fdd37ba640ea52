import Mathlib.Logic.Function.Basic
import Mathlib.Tactic.Common

/-! A pointer that owns an object, and callers that reset it without a lock: each reads the pointer,
clears it and deletes what it has read. -/

/-- Whether the pointer is not null, and whether the object is there. -/
structure ScopedPtr where
  set : Bool
  alive : Bool

namespace ScopedPtr

/-- A caller inside `reset`; what it has read from the pointer is null or not. -/
inductive Stage
  | reading
  | clearing (held : Bool)
  | deleting (held : Bool)

def new : ScopedPtr := ⟨true, true⟩

/-- The next access of a caller, and where it is then. To delete an object that is gone is
undefined, and no step. -/
def step (p : ScopedPtr) : Stage → Option (ScopedPtr × Option Stage)
  | .reading => some (p, some (.clearing p.set))
  | .clearing held => some ({ p with set := false }, some (.deleting held))
  | .deleting false => some (p, none)
  | .deleting true => if p.alive then some ({ p with alive := false }, none) else none

inductive Accessed (p : ScopedPtr) : Stage → ScopedPtr → Option Stage → Prop
  | read : Accessed p .reading p (some (.clearing p.set))
  | clear {held : Bool} :
    Accessed p (.clearing held) { p with set := false } (some (.deleting held))
  | skip : Accessed p (.deleting false) p none
  | delete (halive : p.alive) : Accessed p (.deleting true) { p with alive := false } none

variable {κ : Type*} {p q : ScopedPtr} {st : Stage} {next : Option Stage}
  {stage stage' : κ → Option Stage} {c : κ}

theorem accessed_of_step (h : p.step st = some (q, next)) : Accessed p st q next := by
  cases st with
  | reading =>
    cases h
    exact .read
  | clearing held =>
    cases h
    exact .clear
  | deleting held =>
    cases held with
    | false =>
      cases h
      exact .skip
    | true =>
      simp only [step] at h
      split_ifs at h with halive
      cases h
      exact .delete halive

theorem step_eq_none_iff : p.step st = none ↔ p.alive = false ∧ st = .deleting true := by
  cases st with
  | reading | clearing => simp [step]
  | deleting held => cases held <;> simp [step]

def Stage.rank : Stage → Nat
  | .reading => 3
  | .clearing _ => 2
  | .deleting _ => 1

theorem rank_step (h : p.step st = some (q, next)) : next.elim 0 Stage.rank < st.rank := by
  cases accessed_of_step h <;> simp [Stage.rank]

theorem set_step (h : p.step st = some (q, next)) (hset : p.set = false) : q.set = false := by
  cases accessed_of_step h with
  | clear => rfl
  | read | skip | delete => exact hset

/-! ### What the accesses keep -/

/-- A step of a program around the pointer: it does nothing to it, or a caller begins to reset it
or goes on. -/
inductive Taken [DecidableEq κ] (p : ScopedPtr) (stage : κ → Option Stage) :
    ScopedPtr → (κ → Option Stage) → Prop
  | other : Taken p stage p stage
  | enter {c : κ} (hc : stage c = none) :
    Taken p stage p (Function.update stage c (some .reading))
  | access {c : κ} {st : Stage} {q : ScopedPtr} {next : Option Stage} (hc : stage c = some st)
      (h : p.step st = some (q, next)) : Taken p stage q (Function.update stage c next)

section

variable [DecidableEq κ] {π : Type*} (view : π → Option Stage) {client client' : κ → π} {x : π}

theorem taken_outside (hclient : client' = Function.update client c x)
    (hc : view (client c) = none) (hx : view x = none ∨ view x = some .reading) :
    Taken p (view ∘ client) p (view ∘ client') := by
  rw [hclient, Function.comp_update]
  rcases hx with hx | hx
  · have hsame : Function.update (view ∘ client) c none = view ∘ client := by
      rw [← hc]
      exact Function.update_eq_self c (view ∘ client)
    rw [hx, hsame]
    exact .other
  · rw [hx]
    exact .enter hc

theorem taken_access (hclient : client' = Function.update client c x)
    (hc : view (client c) = some st) (hstep : p.step st = some (q, view x)) :
    Taken p (view ∘ client) q (view ∘ client') := by
  rw [hclient, Function.comp_update]
  exact .access hc hstep

end

/-- Where the pointer is null, its object is gone or some caller will delete it. -/
structure Released (p : ScopedPtr) (stage : κ → Option Stage) : Prop where
  unset : p.set = false → p.alive = false ∨ ∃ c, stage c = some (.deleting true)
  read : ∀ c, stage c = some (.clearing false) → p.set = false
  cleared : ∀ c held, stage c = some (.deleting held) → p.set = false

theorem released_new (h : ∀ c, stage c = none) : Released new stage where
  unset hset := nomatch hset
  read c hc := nomatch (h c).symm.trans hc
  cleared c _ hc := nomatch (h c).symm.trans hc

theorem Released.set_of_through (h : Released p stage) (hc : stage c = some st)
    (hstep : p.step st = some (q, none)) : q.set = false := by
  cases accessed_of_step hstep with
  | skip | delete => exact h.cleared c _ hc

/-- Where no caller inside `reset` can go on, a null pointer has no object. -/
theorem Released.gone (h : Released p stage) (hset : p.set = false)
    (hstuck : ∀ c st, stage c = some st → p.step st = none) : p.alive = false := by
  rcases h.unset hset with hgone | ⟨c, hc⟩
  · exact hgone
  · exact (step_eq_none_iff.mp (hstuck c _ hc)).1

variable [DecidableEq κ]

theorem deleting_update (hc : stage c ≠ some (.deleting true))
    (h : p.alive = false ∨ ∃ d, stage d = some (.deleting true)) :
    p.alive = false ∨ ∃ d, Function.update stage c next d = some (.deleting true) := by
  refine h.imp_right fun ⟨d, hd⟩ => ⟨d, ?_⟩
  have hne : d ≠ c := by
    rintro rfl
    exact hc hd
  rw [Function.update_of_ne hne, hd]

theorem Released.move (h : Released p stage) (hset : p.set = false → q.set = false)
    (hunset : q.set = false →
      q.alive = false ∨ ∃ d, Function.update stage c next d = some (.deleting true))
    (hread : next = some (.clearing false) → q.set = false)
    (hcleared : ∀ held, next = some (.deleting held) → q.set = false) :
    Released q (Function.update stage c next) where
  unset := hunset
  read := (Function.forall_update_iff stage fun _ x => x = some (.clearing false) → _).mpr
    ⟨hread, fun d _ hd => hset (h.read d hd)⟩
  cleared := (Function.forall_update_iff stage fun _ x => ∀ held, x = some (.deleting held) → _).mpr
    ⟨hcleared, fun d _ held hd => hset (h.cleared d held hd)⟩

theorem Released.step (h : Released p stage) (htaken : Taken p stage q stage') :
    Released q stage' := by
  cases htaken with
  | other => exact h
  | enter hc =>
    exact h.move id (fun hset => deleting_update (by simp [hc]) (h.unset hset)) nofun nofun
  | @access c st q next hc hstep =>
    cases accessed_of_step hstep with
    | read =>
      refine h.move id (fun hset => deleting_update (by simp [hc]) (h.unset hset)) (fun hread => ?_)
        nofun
      simpa using hread
    | @clear held =>
      refine h.move (fun _ => rfl) (fun _ => ?_) nofun fun _ _ => rfl
      cases held with
      | true => exact .inr ⟨c, Function.update_self ..⟩
      | false => exact deleting_update (by simp [hc]) (h.unset (h.read c hc))
    | skip =>
      exact h.move id (fun hset => deleting_update (by simp [hc]) (h.unset hset)) nofun nofun
    | delete => exact h.move id (fun _ => .inl rfl) nofun nofun

/-! ### Callers that delete the object twice -/

/-- A caller is about to delete an object that is gone. -/
def DeletedTwice (p : ScopedPtr) (stage : κ → Option Stage) : Prop :=
  p.alive = false ∧ ∃ c, stage c = some (.deleting true)

omit [DecidableEq κ] in
theorem deletedTwice_of_stuck (hc : stage c = some st) (hstep : p.step st = none) :
    DeletedTwice p stage := by
  obtain ⟨hgone, rfl⟩ := step_eq_none_iff.mp hstep
  exact ⟨hgone, c, hc⟩

def Alone (stage : κ → Option Stage) : Prop :=
  ∀ c c', (stage c).isSome → (stage c').isSome → c = c'

/-- The object is there as long as somebody has a pointer to it. -/
structure Owned (p : ScopedPtr) (stage : κ → Option Stage) : Prop where
  released : Released p stage
  set : p.set → p.alive
  held : ∀ c, stage c = some (.clearing true) ∨ stage c = some (.deleting true) → p.alive

omit [DecidableEq κ] in
theorem owned_new (h : ∀ c, stage c = none) : Owned new stage where
  released := released_new h
  set _ := rfl
  held _ _ := rfl

omit [DecidableEq κ] in
theorem Owned.not_deletedTwice (h : Owned p stage) : ¬DeletedTwice p stage := by
  rintro ⟨hgone, c, hc⟩
  cases hgone.symm.trans (h.held c (.inr hc))

theorem Owned.step (h : Owned p stage) (halone : Alone stage) (htaken : Taken p stage q stage') :
    Owned q stage' := by
  have hreleased := h.released.step htaken
  have hmove : ∀ {c : κ} {next : Option Stage}, q.alive = p.alive →
      (next = some (.clearing true) ∨ next = some (.deleting true) → p.alive) →
      ∀ d, Function.update stage c next d = some (.clearing true) ∨
        Function.update stage c next d = some (.deleting true) → q.alive := by
    intro c next halive hnext
    rw [halive]
    exact (Function.forall_update_iff stage fun _ x =>
      x = some (.clearing true) ∨ x = some (.deleting true) → _).mpr ⟨hnext, fun d _ => h.held d⟩
  cases htaken with
  | other => exact h
  | enter hc => exact ⟨hreleased, h.set, hmove rfl (by simp)⟩
  | @access c st q next hc hstep =>
    cases accessed_of_step hstep with
    | read =>
      refine ⟨hreleased, h.set, hmove rfl fun hread => h.set ?_⟩
      simpa using hread
    | @clear held =>
      refine ⟨hreleased, nofun, hmove rfl fun hclear => h.held c (.inl ?_)⟩
      simpa [hc] using hclear
    | skip => exact ⟨hreleased, h.set, hmove rfl (by simp)⟩
    | delete =>
      -- nobody else is inside `reset`, and the pointer is null
      refine ⟨hreleased, fun hset => ?_, fun d hd => ?_⟩
      · cases (h.released.cleared c true hc).symm.trans hset
      · exfalso
        rcases eq_or_ne d c with rfl | hne
        · simp at hd
        · rw [Function.update_of_ne hne] at hd
          exact hne (halone d c (by rcases hd with hd | hd <;> rw [hd] <;> rfl) (by rw [hc]; rfl))

end ScopedPtr
