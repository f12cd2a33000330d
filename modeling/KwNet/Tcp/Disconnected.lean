import KwNet.Tcp.AfterClose

/-!
# `Disconnected` and the descriptor

`handle_ep_hup` is the only place that stores `Disconnected`, and it does so after `socket_->close()`.
So a word that says `Disconnected` belongs to a connection whose descriptor is closed, with either class
and in every state.

* `Frame.pastClose` — `handle_ep_hup` between the close and its return;
* **`ShutInv.step`** — past the close, and once `Disconnected` is stored, the descriptor is closed.
-/

namespace KwNet.Tcp

open KwNet.Lib

variable {ι : Type} {cfg : Config} {w : Word} {io : Io} {p : Phase} {s s' : Conn ι}

/-- `handle_ep_hup` past `socket_->close()`. -/
def Frame.pastClose : Frame → Bool
  | .hup .store | .hup .wake | .hup .callback => true
  | _ => false

/-- Only `handle_ep_hup` stores `Disconnected`. -/
theorem frameStep_stores {f : Frame} {inp : Input} {e : Effect} (hf : f.Ok)
    (hs : frameStep cfg p.word io f inp = some e) (hw : e.word = Phase.closed.word) :
    p = .closed ∨ f = .hup .store := by
  have hsame : p.word = Phase.closed.word → p = .closed ∨ f = .hup .store := fun h =>
    .inl (Phase.eq_of_word (by simp) h)
  cases f with
  | user => cases hs
  | call c k =>
    obtain ⟨ce, hce, rfl⟩ := Option.map_eq_some_iff.mp hs
    exact .inl ((callStep_move hf.1 hce).closed_iff.mp hw)
  | sendInLoop pc job copy =>
    have hbusy : ∀ c, (Phase.busy c).word - oneSender ≠ Phase.closed.word := by
      intro c
      obtain ⟨d, hd⟩ := busy_sub_phase c
      rw [hd]
      exact busy_ne d (by simp)
    cases sendLoopStep_move hs with
    | load hm => exact hsame (hm.word.symm.trans hw)
    | write hm => exact hsame (hm.word.symm.trans hw)
    | queue hm => exact hsame (hm.word.symm.trans hw)
    | last =>
      obtain ⟨c, rfl⟩ : ∃ c, _ = (Phase.busy c).word := hf
      exact absurd hw (hbusy c)
    | release =>
      obtain ⟨c, rfl⟩ : ∃ c, _ = (Phase.busy c).word := hf
      exact absurd hw (hbusy c)
    | clear =>
      obtain rfl : _ = (Phase.busy 0).word := hf
      exact absurd (busy_zero_xor.symm.trans hw) (by decide)
    | _ => exact hsame hw
  | shutdownInLoop =>
    cases hs
    exact hsame hw
  | hup pc =>
    cases hs
    cases pc with
    | store => exact .inr rfl
    | _ => exact .inl (Phase.eq_of_word (by simp) (by
        simp only [hupStep] at hw; (repeat' split at hw) <;> exact hw))
  | delay pc =>
    cases hs
    cases pc with
    | store =>
      have hshut : Phase.shut.word = Phase.closed.word := hw
      exact absurd hshut (by decide)
    | _ => exact hsame (by simp only [delayStep] at hw; (repeat' split at hw) <;> exact hw)
  | handler pc => exact hsame ((handlerStep_move hs).word.symm.trans hw)

theorem SendMid.not_pastClose {old : Word} {job : Job} {copy : Option (List UInt8)} {fs : List Frame}
    {evs : List Event} (h : SendMid old job copy fs evs) : ∀ g ∈ fs, g.pastClose = false := by
  cases h <;> simp [Frame.pastClose]

theorem frameStep_pastClose {f : Frame} {inp : Input} {e : Effect}
    (hs : frameStep cfg w io f inp = some e) {g : Frame} (hg : g ∈ e.frames)
    (hpast : g.pastClose = true) : f.pastClose = true ∨ f = .hup .close := by
  have hnone : ∀ {fs : List Frame}, (∀ g ∈ fs, g.pastClose = false) → g ∈ fs →
      f.pastClose = true ∨ f = .hup .close := by
    intro fs hfs hg
    rw [hfs g hg] at hpast
    cases hpast
  cases f with
  | user => cases hs
  | call c k =>
    obtain ⟨ce, -, rfl⟩ := Option.map_eq_some_iff.mp hs
    refine hnone ?_ hg
    show ∀ g ∈ ce.next.frames k, _
    cases ce.next <;> cases k <;> simp [Next.frames, Cont.frames, Frame.pastClose]
  | sendInLoop pc job copy =>
    cases sendLoopStep_move hs with
    | load hm =>
      obtain ⟨evs, -, hmid⟩ := hm.mid
      exact hnone hmid.not_pastClose hg
    | write hm =>
      obtain ⟨evs, -, hmid⟩ := hm.mid
      exact hnone hmid.not_pastClose hg
    | queue hm =>
      obtain ⟨evs, -, hmid⟩ := hm.mid
      exact hnone hmid.not_pastClose hg
    | _ => exact hnone (by simp [Effect.goto, Frame.pastClose]) hg
  | shutdownInLoop =>
    cases hs
    cases hg
  | hup pc =>
    cases hs
    cases pc with
    | load =>
      refine hnone ?_ hg
      simp only [hupStep]
      (repeat' split) <;> simp [Effect.goto, Frame.pastClose]
    | free => exact hnone (by simp [hupStep, Effect.goto, Frame.pastClose]) hg
    | close => exact .inr rfl
    | _ => exact .inl rfl
  | delay pc =>
    cases hs
    refine hnone ?_ hg
    cases pc <;> simp only [delayStep] <;> (repeat' split) <;> simp [Effect.goto, Frame.pastClose]
  | handler pc =>
    have hh := List.all_eq_true.mp (handlerStep_move hs).frames g hg
    cases g with
    | hup pc => cases pc <;> first | (cases hpast; done) | cases hh
    | _ => cases hpast

/-- Whoever gets past `socket_->close()` leaves the socket closed, `Disconnected` included. -/
structure ShutInv (cfg : Config) (s : Conn ι) : Prop extends PhaseInv cfg s where
  stored : s.word = Phase.closed.word → s.io.kernel.isOpen = false
  past : ∀ f ∈ s.loop, f.pastClose = true → s.io.kernel.isOpen = false

theorem Frame.wake_pastClose (f : Frame) : f.wake.pastClose = f.pastClose := by
  unfold Frame.wake
  split <;> rfl

theorem Frame.pastClose_of_isEntry {f : Frame} (h : f.isEntry = true) : f.pastClose = false := by
  unfold Frame.isEntry at h
  split at h <;> first | rfl | cases h

theorem ShutInv.step [Fintype ι] [DecidableEq ι] {a : Action ι} (h : ShutInv cfg s)
    (hs : Tcp.step cfg s a = some s') : ShutInv cfg s' := by
  have hp' := h.toPhaseInv.step hs
  obtain ⟨p, hp⟩ := h.word
  rcases step_kinds hs with ⟨t, c, e, rfl, ht, he, rfl⟩ | ⟨inp, f, rest, e, rfl, hl, he, rfl⟩ |
    ⟨t, f, rfl, ht, rfl⟩ | hadmin
  · rw [hp] at he
    have hm := callStep_move (h.toPhaseInv.moving_ok (moving_caller ht)) he
    refine ⟨hp', fun hw => ?_, fun f hf hpast => ?_⟩
    · rw [afterCall_io]
      exact h.stored (by rw [hp, hm.closed_iff.mp hw])
    · rw [afterCall_io]
      obtain ⟨g, hg, rfl | rfl⟩ := afterCall_mem_loop hf
      · exact h.past f hg hpast
      · exact h.past g hg (by rw [← g.wake_pastClose]; exact hpast)
  · have hmem : f ∈ s.loop := by rw [hl]; exact List.mem_cons_self
    by_cases hf : f = .hup .close
    · subst hf
      cases he
      have hclosed : (s.apply rest (hupStep cfg s.word s.io .close)).io.kernel.isOpen = false := by
        show (hupStep cfg s.word s.io .close).io.kernel.isOpen = false
        cases hk : cfg.kind <;> simp only [hupStep, hk] <;> rfl
      exact ⟨hp', fun _ => hclosed, fun _ _ _ => hclosed⟩
    · have hkeep : (s.apply rest e).io.kernel.isOpen = s.io.kernel.isOpen :=
        (frameStep_descriptor hf he).1
      refine ⟨hp', fun hw => ?_, fun g hg hpast => ?_⟩
      · rw [hp] at he
        rw [hkeep]
        rcases frameStep_stores (h.loop f hmem) he hw with rfl | rfl
        · exact h.stored hp
        · exact h.past _ hmem rfl
      · rw [hkeep]
        rcases List.mem_append.mp hg with hg | hg
        · exact h.past f hmem ((frameStep_pastClose he hg hpast).resolve_right hf)
        · exact h.past g (by rw [hl]; exact List.mem_cons_of_mem f hg) hpast
  · exact ⟨hp', h.stored, h.past⟩
  · refine ⟨hp', fun hw => ?_, fun f hf hpast => ?_⟩
    · rw [hadmin.same.isOpen]
      exact h.stored (hadmin.word.symm.trans hw)
    · rw [hadmin.same.isOpen]
      rcases hadmin.loop f hf with hf | ⟨hentry, -⟩
      · exact h.past f hf hpast
      · rw [Frame.pastClose_of_isEntry hentry] at hpast
        cases hpast

theorem shutInv_init (cfg : Config) (rdhupPhrase isIoChannel ssl : Bool) (mem : ℤ → UInt8) :
    ShutInv cfg (Conn.init ι rdhupPhrase isIoChannel ssl mem) := by
  refine ⟨phaseInv_init cfg _ _ _ _, fun h => ?_, by simp [Conn.init, Frame.pastClose]⟩
  have hidle : Phase.idle.word = Phase.closed.word := h
  exact absurd hidle (by decide)

end KwNet.Tcp
