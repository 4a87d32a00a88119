import KimRpc.Client.Nesting

/-! Waiting for the locks of the channel and for the end of the receive thread, when
done closures make calls of their own. `m_pendingMtx` is only held within a step. -/

namespace KimRpc.Client.Channel

open Library.Runs

variable {env : ChannelEnv} {s t : Channel} {a : Action} {c : ℕ}

/-- A thread in a call that cannot go on before the other thread does. -/
inductive WaitsFor (s : Channel) : Thread → Thread → Prop where
  | connMtx {c h : ℕ} : (s.calls c).pc = .connecting → s.connMtx = some h →
      WaitsFor s (s.calls c).thread (s.calls h).thread
  | join {c : ℕ} : (s.calls c).pc = .joining → s.Receiving → WaitsFor s (s.calls c).thread .recv
  | sendMtx {c h : ℕ} : (s.calls c).pc = .locking → s.sendMtx = some h →
      WaitsFor s (s.calls c).thread (s.calls h).thread

/-- No thread has joined itself, and none waits for itself through others. -/
def Progressing (s : Channel) : Prop := s.crashed = false ∧ ∀ T, ¬ Relation.TransGen s.WaitsFor T T

/-- No call joins the receive thread from a done closure on it or while one waits for the
connection there, and none gets to wait there while it is being joined. -/
def waitsApart (env : ChannelEnv) (s : Channel) : Action → Bool
  | .connect c => s.Receiving → ¬ s.Connected (s.calls c).hostData →
      (s.calls c).thread ≠ .recv ∧
        ∀ d < s.started, (s.calls d).thread = .recv → (s.calls d).pc ≠ .connecting
  | .prepare c inv => s.Receiving → inv.connects env.codec s.nextId = true →
      (s.calls c).thread = .recv →
      ∀ d < s.started, (s.calls d).pc ≠ .joining
  | _ => true

structure Apart (s : Channel) : Prop where
  intact : s.crashed = false
  joins : s.Receiving → ∀ h, (s.calls h).pc = .joining → (s.calls h).thread ≠ .recv ∧
    ∀ d, (s.calls d).thread = .recv → (s.calls d).pc ≠ .connecting

lemma Apart.step (hi : s.Apart) (hs : s.Sound) {stack : Thread → List ℕ} (hn : s.Nested stack)
    (hok : s.waitsApart env a = true) (h : s.step env a = some t) : t.Apart := by
  have hbegun : ∀ d, (s.calls d).pc ≠ .absent → d < s.started := by
    intro d hd
    by_contra hge
    exact hd (hs.called.absent d (by omega))
  cases thread_step hs.settled h with
  | started parent he =>
    refine ⟨hi.intact, ?_⟩
    intro hrecv h hj
    have hold : ∀ d, (∃ pc ∈ [CallPc.joining, .connecting], ((s.start parent).calls d).pc = pc) →
        (s.start parent).calls d = s.calls d := by
      rintro d ⟨pc, hpc, hd⟩
      by_cases hds : d = s.started
      · subst hds
        simp only [Channel.start, setCall, Function.update_self] at hd
        simp [← hd] at hpc
      · exact Function.update_of_ne hds _ _
    have hh := hold h ⟨.joining, by simp, hj⟩
    rw [hh] at hj ⊢
    obtain ⟨hne, hall⟩ := hi.joins hrecv h hj
    refine ⟨hne, fun d hd hc => ?_⟩
    have hdold := hold d ⟨.connecting, by simp, hc⟩
    rw [hdold] at hd hc
    exact hall d hd hc
  | walked hkin hbelow hstarted hreturn hconnecting hjoining hreceiving hcrashed =>
    constructor
    · by_contra hne
      rcases hcrashed (by simpa using hne) with hc | ⟨d, hj, hr, hT⟩
      · simp [hi.intact] at hc
      · by_cases hrecv : s.Receiving
        · exact (hi.joins hrecv d hj).1 hT
        · have hfin : s.recvThread = some .finished := by
            by_contra hf
            exact hrecv ⟨hr, hf⟩
          have hdone := hs.settled.recv (by simp [hfin]) (by simp [hfin])
          have hempty :=
            hn.empty hs.called (T := .recv) (by simp) (.inl (by rw [below, hdone.2]; rfl))
          have hm := (hn.mem d .recv).mpr ⟨hT, by simp [hj, CallPc.Live]⟩
          simp [hempty] at hm
    · intro hrecv c hc
      have hjoin := hjoining c hc
      have hrecv' : s.Receiving := by
        rcases hreceiving hrecv with hr | ⟨d, hd⟩
        · exact hr
        · have hheld := (hs.locked.holder d).mpr (.inr hd)
          rcases hjoin with hj | ⟨rfl, -⟩
          · have hc' := (hs.locked.holder c).mpr (.inl hj)
            cases Option.some.inj (hheld.symm.trans hc')
            simp [hd] at hj
          · simp [(step_eq h).1.2] at hheld
      rw [(hkin c).1]
      rcases hjoin with hj | ⟨rfl, hconn⟩
      · obtain ⟨hne, hall⟩ := hi.joins hrecv' c hj
        refine ⟨hne, fun d hd hpc => ?_⟩
        rw [(hkin d).1] at hd
        rcases hconnecting d hpc with hpc | ⟨inv, rfl, -, hcon⟩
        · exact hall d hd hpc
        · exact of_decide_eq_true hok hrecv' hcon hd c (hbegun c (by simp [hj])) hj
      · obtain ⟨hne, hall⟩ := of_decide_eq_true hok hrecv' hconn
        refine ⟨hne, fun d hd hpc => ?_⟩
        rw [(hkin d).1] at hd
        rcases hconnecting d hpc with hpc | ⟨inv, hprep, -⟩
        · exact hall d (hbegun d (by simp [hpc])) hd hpc
        · simp at hprep

lemma apart_run {as : List Action}
    (h : Run (Channel.step env) (fun u a => u.waitsApart env a = true) constructed as t) :
    t.Apart := by
  refine h.invariant_with (K := fun u => u.Sound ∧ ∃ stack, u.Nested stack) ?_
    (fun _ _ hr => ⟨sound_run hr, nested_run hr⟩) ?_
  · exact ⟨rfl, by simp [constructed]⟩
  · rintro u a v ⟨hs, stack, hn⟩ - hi hok hstep
    exact hi.step hs hn hok hstep

def ahead : CallPc → ℕ
  | .connecting => 3
  | .joining => 2
  | .locking => 1
  | _ => 0

variable {stack : Thread → List ℕ}

def rank (s : Channel) (stack : Thread → List ℕ) (T : Thread) : ℕ :=
  match stack T with
  | [] => 0
  | c :: _ => ahead (s.calls c).pc

lemma Nested.rank_eq (hi : s.Nested stack) (hcalled : s.Called) (hlive : CallPc.Live (s.calls c).pc)
    (hpc : (s.calls c).pc ≠ .inDone) : s.rank stack (s.calls c).thread = ahead (s.calls c).pc := by
  obtain ⟨rest, hs⟩ := hi.head hcalled ((hi.mem c _).mpr ⟨rfl, hlive⟩) (fun h => absurd h hpc)
  rw [rank, hs]

lemma WaitsFor.rank_lt {T U : Thread} (h : s.WaitsFor T U) (hs : s.Sound) (hm : s.Sender)
    (hn : s.Nested stack)
    (hi : s.Apart) : s.rank stack U < s.rank stack T := by
  cases h with
  | @connMtx c h hpc hheld =>
    have hc := hn.rank_eq hs.called (c := c) (by simp [hpc, CallPc.Live]) (by simp [hpc])
    rw [hc, hpc]
    rcases (hs.locked.holder h).mp hheld with hh | hh
    · rw [hn.rank_eq hs.called (by simp [hh, CallPc.Live]) (by simp [hh]), hh]
      decide
    · rw [hn.rank_eq hs.called (by simp [hh, CallPc.Live]) (by simp [hh]), hh]
      decide
  | @join c hpc hrecv =>
    have hc := hn.rank_eq hs.called (c := c) (by simp [hpc, CallPc.Live]) (by simp [hpc])
    rw [hc, hpc, rank]
    cases hst : stack .recv with
    | nil => simp [ahead]
    | cons d rest =>
      obtain ⟨hT, -⟩ := (hn.mem d .recv).mp (by simp [hst])
      have hd := (hi.joins hrecv c hpc).2 d hT
      have hj : (s.calls d).pc ≠ .joining := fun hj => (hi.joins hrecv d hj).1 hT
      cases hdpc : (s.calls d).pc with
      | connecting => exact absurd hdpc hd
      | joining => exact absurd hdpc hj
      | _ => simp [hdpc, ahead]
  | @sendMtx c h hpc hheld =>
    have hc := hn.rank_eq hs.called (c := c) (by simp [hpc, CallPc.Live]) (by simp [hpc])
    have hh : (s.calls h).pc = .sending := by
      have hph := (hm h).mp hheld
      cases hhpc : (s.calls h).pc <;> simp [phase, hhpc, CallPc.phase] at hph ⊢
    rw [hc, hpc, hn.rank_eq hs.called (by simp [hh, CallPc.Live]) (by simp [hh]), hh]
    decide

/-- When no call joins the receive thread from a done closure on it, and no done closure on
it waits for the connection while another call joins it, no thread waits for itself. -/
theorem callbacks_progress (env : ChannelEnv) {as : List Action} {t : Channel}
    (h : Run (Channel.step env) (fun u a => u.waitsApart env a = true) constructed as t) :
    t.Progressing := by
  have hi := apart_run h
  obtain ⟨stack, hn⟩ := nested_run h
  refine ⟨hi.intact, fun T hT => ?_⟩
  have hrank : Relation.TransGen (fun m n : ℕ => m > n) (t.rank stack T) (t.rank stack T) :=
    hT.lift (t.rank stack) (fun _ _ hw => hw.rank_lt (sound_run h) (sender_run h) hn hi)
  rw [Relation.transGen_eq_self] at hrank
  exact lt_irrefl _ hrank

def callbackRun (hostData : String) : List Action :=
  sampleCall 0 "10.0.0.1:80" ++
  [.recvTop, .recv [8, 0, 0, 0], .recv [1, 0, 0, 0, 0, 0, 0, 0], .recvTake 1 [], .runDone .recv 1,
    .start (some 0),
    .prepare 1 (sampleInvocation hostData)]

/-- A done closure draws another host; and a caller draws another host while a done
closure waits for the connection. -/
theorem blocked_sample :
    (∃ t, Run (Channel.step sampleEnv) Any constructed
      (callbackRun "10.0.0.2:80" ++ [.connect 1, .join 1]) t ∧ ¬ t.Progressing) ∧
    ∃ t, Run (Channel.step sampleEnv) Any constructed
      (callbackRun "10.0.0.1:80" ++ [.start none, .prepare 2 (sampleInvocation "10.0.0.2:80"),
        .connect 2]) t ∧
      ¬ t.Progressing := by
  constructor
  · obtain ⟨t, ht, hd⟩ : ∃ t, exec (Channel.step sampleEnv) constructed
        (callbackRun "10.0.0.2:80" ++ [.connect 1, .join 1]) = some t ∧
        decide (t.crashed = true) = true :=
      exec_any (by decide +kernel)
    have hcrashed := of_decide_eq_true hd
    exact ⟨t, .of_exec ht (by decide +kernel), fun h => by simp [h.1] at hcrashed⟩
  · obtain ⟨t, ht, hd⟩ : ∃ t, exec (Channel.step sampleEnv) constructed
        (callbackRun "10.0.0.1:80" ++ [.start none, .prepare 2 (sampleInvocation "10.0.0.2:80"),
          .connect 2]) = some t ∧
        decide ((t.calls 1).pc = .connecting ∧ (t.calls 1).thread = .recv ∧ t.connMtx = some 2 ∧
          (t.calls 2).pc = .joining ∧ t.Receiving) = true := exec_any (by decide +kernel)
    obtain ⟨hpc, hT, hheld, hpc', hrecv⟩ := of_decide_eq_true hd
    refine ⟨t, .of_exec ht (by decide +kernel), fun h => h.2 .recv ?_⟩
    have hlock : t.WaitsFor .recv (t.calls 2).thread := hT ▸ .connMtx hpc hheld
    exact .tail (.single hlock) (.join hpc' hrecv)

theorem callbacks_progress_sample : ∃ t, exec (Channel.step sampleEnv) constructed
    (callbackRun "10.0.0.1:80" ++ [.connect 1, .register 1, .lockSend 1, .send 1 12, .free .recv,
      .recvNext]) = some t ∧
    (t.calls 1).thread = .recv ∧ t.Progressing := by
  obtain ⟨t, ht, hd⟩ : ∃ t, exec (Channel.step sampleEnv) constructed
      (callbackRun "10.0.0.1:80" ++ [.connect 1, .register 1, .lockSend 1, .send 1 12, .free .recv,
        .recvNext]) = some t ∧
      decide ((t.calls 1).thread = .recv) = true := exec_any (by decide +kernel)
  exact ⟨t, ht, of_decide_eq_true hd, callbacks_progress sampleEnv
    (.of_exec ht (by decide +kernel))⟩

end KimRpc.Client.Channel
