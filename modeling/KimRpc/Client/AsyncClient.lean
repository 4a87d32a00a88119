import KimRpc.Client.TcpClient

/-! The calls of `UringTcpClient` that return at once, and the loop that hands their
completions to their callbacks. -/

namespace KimRpc.Client.AsyncClient

open Discovery Library Library.Runs
open TcpClient (Request)
open Wire (Bytes)

/-- What the user data of an SQE points to. `serial` is the number of the call, and so of its
callback. -/
structure IoContext where
  request : Request
  serial : ℕ
  deriving DecidableEq

inductive Place where
  | inCall
  | inLoop
  deriving DecidableEq

structure Fired where
  serial : ℕ
  success : Bool
  result : ℤ
  error : Bytes
  place : Place
  deriving DecidableEq

/-- `returned` has what each call returned; `unfired` has the calls whose socket failed and `left`
those whose submit failed. The completion being handled is kept apart until it is seen. -/
structure State where
  ringReady : Bool
  fd : Option ℕ := none
  ring : IoRing IoContext := {}
  handling : Option IoContext := none
  returned : List Bool := []
  fired : List Fired := []
  unfired : List ℕ := []
  left : List ℕ := []
  deriving DecidableEq

def op : Request → Bytes
  | .connect _ _ _ => text "connect"
  | .send _ _ => text "send"
  | .recv _ _ _ => text "recv"

namespace State

def new (ringReady : Bool) : State := { ringReady }

variable (strerror : ℕ → Bytes) (s : State)

def serial : ℕ := s.returned.length

def fail (error : Bytes) : State :=
  { s with fired := s.fired ++ [⟨s.serial, false, 0, error, .inCall⟩],
           returned := s.returned ++ [false] }

/-- From `io_uring_get_sqe` to the end of a call. A failed submit leaves the SQE in the ring. -/
def enqueue (request : Request) (sqe : Bool) (submit : ℤ) : State :=
  if sqe = false then s.fail (text "get " ++ op request ++ text " sqe error")
  else
    let ring := s.ring.prepare ⟨request, s.serial⟩
    if submit < 0 then
      { s with ring, left := s.left ++ [s.serial] }.fail
      (op request ++ text " submit error: " ++ strerror submit.natAbs)
    else { s with ring := ring.submit submit.toNat, returned := s.returned ++ [true] }

def close : State := { s with fd := none }

def asyncConnect (ip : Bytes) (port : UInt16) (socket : Option ℕ) (sqe : Bool) (submit : ℤ) :
    State :=
  if s.ringReady = false then s.fail (text "io_uring queue init error")
  else
    match socket with
    | none =>
      { s with fd := none, returned := s.returned ++ [false], unfired := s.unfired ++ [s.serial] }
    | some fd =>
      let s := { s with fd := some fd }
      match inetPton (ip.takeWhile (· ≠ 0)) with
      | none => s.fail (text "invalid server ip: " ++ ip)
      | some addr =>
        let t := s.enqueue strerror (.connect (some fd) addr port) sqe submit
        if sqe = false ∨ submit < 0 then t.close else t

def asyncWrite (data : Bytes) (sqe : Bool) (submit : ℤ) : State :=
  if s.fd = none then s.fail (text "socket is not connected")
    else s.enqueue strerror (.send s.fd data) sqe submit

def asyncRead (sqe : Bool) (submit : ℤ) : State :=
  if s.fd = none then s.fail (text "socket is not connected")
    else s.enqueue strerror (.recv s.fd 0 4096) sqe submit

def told (ctx : IoContext) (res : ℤ) (buf : Bytes) : Fired :=
  if res < 0 then ⟨ctx.serial, false, res, op ctx.request ++ text " error: " ++ strerror res.natAbs,
    .inLoop⟩
  else
    match ctx.request with
    | .recv _ _ len =>
      ⟨ctx.serial, true, res, (buf ++ List.replicate len 0).take res.toNat, .inLoop⟩
    | _ => ⟨ctx.serial, true, res, [], .inLoop⟩

end State

inductive Action where
  | asyncConnect (ip : Bytes) (port : UInt16) (socket : Option ℕ) (sqe : Bool) (submit : ℤ)
  | asyncWrite (data : Bytes) (sqe : Bool) (submit : ℤ)
  | asyncRead (sqe : Bool) (submit : ℤ)
  | complete (ctx : IoContext) (res : ℤ)
  | waitCqe (ret : ℤ) (buf : Bytes)
  | cqeSeen

/-- A callback that the loop invokes may make further calls before its completion is seen. -/
def step (strerror : ℕ → Bytes) (s : State) : Action → Option State
  | .asyncConnect ip port socket sqe submit =>
    some (s.asyncConnect strerror ip port socket sqe submit)
  | .asyncWrite data sqe submit => some (s.asyncWrite strerror data sqe submit)
  | .asyncRead sqe submit => some (s.asyncRead strerror sqe submit)
  | .complete ctx res =>
    if ctx ∈ s.ring.inKernel then some { s with ring := s.ring.complete ctx res } else none
  | .waitCqe ret buf =>
    if s.ringReady = false ∨ s.handling ≠ none then none
    else if ret < 0 then some s
    else
      match s.ring.cq with
      | [] => none
      | (ctx, res) :: _ =>
        some { s with
          ring := s.ring.advance 1
          handling := some ctx
          fired := s.fired ++ [State.told strerror ctx res buf] }
  | .cqeSeen => if s.handling = none then none else some { s with handling := none }

namespace State

variable (s : State)

def pending : List ℕ := s.ring.outstanding.map IoContext.serial

def fires (i : ℕ) (place : Place) : ℕ := s.fired.countP (fun f => f.serial = i ∧ f.place = place)

structure ExactlyOnce : Prop where
  failed : ∀ i, s.returned[i]? = some false → s.fires i .inCall = 1 ∧ s.fires i .inLoop = 0
  started : ∀ i, s.returned[i]? = some true →
    s.fires i .inCall = 0 ∧ s.fires i .inLoop = if i ∈ s.pending then 0 else 1
  told : ∀ f ∈ s.fired, f.place = .inCall → f.success = false

end State

/-- The socket of a connect is got, and the loop takes no completion that a failed submit left
behind. -/
def Fine (s : State) : Action → Prop
  | .asyncConnect _ _ socket _ _ => s.ringReady = true → socket.isSome = true
  | .waitCqe ret _ => 0 ≤ ret → ∀ cqe ∈ s.ring.cq.head?, cqe.1.serial ∉ s.left
  | .asyncWrite _ _ _ | .asyncRead _ _ | .complete _ _ | .cqeSeen => True

instance (s : State) : DecidablePred (Fine s)
  | .asyncConnect _ _ socket _ _ =>
    inferInstanceAs (Decidable (s.ringReady = true → socket.isSome = true))
  | .waitCqe ret _ =>
    inferInstanceAs (Decidable (0 ≤ ret → ∀ cqe ∈ s.ring.cq.head?, cqe.1.serial ∉ s.left))
  | .asyncWrite _ _ _ | .asyncRead _ _ | .complete _ _ | .cqeSeen => .isTrue trivial

section steps

variable {strerror : ℕ → Bytes} {s t : State} {a : Action}

inductive Does (s : State) (a : Action) (t : State) : Prop
  | failed (f : Fired) (own : f.serial = s.serial) (place : f.place = .inCall)
      (told : f.success = false)
      (fine : Fine s a) (returned : t.returned = s.returned ++ [false])
      (fired : t.fired = s.fired ++ [f])
      (unfired : t.unfired = s.unfired) (left : t.left = s.left)
      (pending : t.pending.Perm s.pending)
  | leftBehind (f : Fired) (own : f.serial = s.serial) (place : f.place = .inCall)
      (told : f.success = false)
      (fine : Fine s a) (returned : t.returned = s.returned ++ [false])
      (fired : t.fired = s.fired ++ [f])
      (unfired : t.unfired = s.unfired) (left : t.left = s.left ++ [s.serial])
      (pending : t.pending.Perm (s.serial :: s.pending))
  | silent (wrong : ¬ Fine s a) (returned : t.returned = s.returned ++ [false])
      (fired : t.fired = s.fired)
      (unfired : t.unfired = s.unfired ++ [s.serial]) (left : t.left = s.left)
      (pending : t.pending.Perm s.pending)
  | started (fine : Fine s a) (returned : t.returned = s.returned ++ [true])
      (fired : t.fired = s.fired)
      (unfired : t.unfired = s.unfired) (left : t.left = s.left)
      (pending : t.pending.Perm (s.serial :: s.pending))
  | moved (fine : Fine s a) (returned : t.returned = s.returned) (fired : t.fired = s.fired)
      (unfired : t.unfired = s.unfired) (left : t.left = s.left)
      (pending : t.pending.Perm s.pending)
  | handled (f : Fired) (place : f.place = .inLoop) (fine : Fine s a ↔ f.serial ∉ s.left)
      (returned : t.returned = s.returned) (fired : t.fired = s.fired ++ [f])
      (unfired : t.unfired = s.unfired)
      (left : t.left = s.left)
      (pending : s.pending.Perm (f.serial :: t.pending))

lemma fail_does (fd : Option ℕ) (error : Bytes) (hfine : Fine s a) :
    Does s a ({ s with fd }.fail error) :=
  .failed _ rfl rfl rfl hfine rfl rfl rfl rfl .rfl

variable (strerror) in
lemma enqueue_does (fd : Option ℕ) (request : Request) (sqe : Bool) (submit : ℤ)
    (hfine : Fine s a) :
    Does s a ({ s with fd }.enqueue strerror request sqe submit) := by
  have hprepare : ((s.ring.prepare ⟨request, s.serial⟩).outstanding.map IoContext.serial).Perm
      (s.serial :: s.pending) :=
    IoRing.outstanding_prepare.map IoContext.serial
  rw [State.enqueue]
  split_ifs with hsqe hsubmit
  · exact fail_does fd _ hfine
  · exact .leftBehind _ rfl rfl rfl hfine rfl rfl rfl rfl hprepare
  · exact .started hfine rfl rfl rfl rfl
      ((IoRing.outstanding_submit.map IoContext.serial).trans hprepare)

lemma Does.close (h : Does s a t) : Does s a t.close := by
  cases h with
  | failed f own place told fine returned fired unfired left pending =>
    exact .failed f own place told fine returned fired unfired left pending
  | leftBehind f own place told fine returned fired unfired left pending =>
    exact .leftBehind f own place told fine returned fired unfired left pending
  | silent wrong returned fired unfired left pending =>
    exact .silent wrong returned fired unfired left pending
  | started fine returned fired unfired left pending =>
    exact .started fine returned fired unfired left pending
  | moved fine returned fired unfired left pending =>
    exact .moved fine returned fired unfired left pending
  | handled f place fine returned fired unfired left pending =>
    exact .handled f place fine returned fired unfired left pending

variable (strerror) in
lemma told_serial (ctx : IoContext) (res : ℤ) (buf : Bytes) :
    (State.told strerror ctx res buf).serial = ctx.serial ∧
    (State.told strerror ctx res buf).place = .inLoop := by
  rw [State.told]
  split_ifs with hres
  · exact ⟨rfl, rfl⟩
  · cases ctx.request <;> exact ⟨rfl, rfl⟩

lemma step_does (h : step strerror s a = some t) : Does s a t := by
  cases a with
  | asyncConnect ip port socket sqe submit =>
    cases h
    unfold State.asyncConnect
    by_cases hready : s.ringReady = false
    · rw [if_pos hready]
      exact fail_does s.fd _ (fun h => by rw [hready] at h; cases h)
    · rw [if_neg hready]
      cases socket with
      | none =>
        refine .silent (fun hfine => ?_) rfl rfl rfl rfl .rfl
        cases hfine (by simpa using hready)
      | some fd =>
        have hfine : Fine s (.asyncConnect ip port (some fd) sqe submit) := fun _ => rfl
        cases inetPton (ip.takeWhile (· ≠ 0)) with
        | none => exact fail_does _ _ hfine
        | some addr =>
          simp only
          have hdoes :=
            enqueue_does strerror (some fd) (.connect (some fd) addr port) sqe submit hfine
          by_cases hclose : sqe = false ∨ submit < 0
          · rw [if_pos hclose]
            exact hdoes.close
          · rw [if_neg hclose]
            exact hdoes
  | asyncWrite data sqe submit =>
    cases h
    rw [State.asyncWrite]
    split_ifs with hfd
    · exact fail_does s.fd _ trivial
    · exact enqueue_does strerror s.fd _ _ _ trivial
  | asyncRead sqe submit =>
    cases h
    rw [State.asyncRead]
    split_ifs with hfd
    · exact fail_does s.fd _ trivial
    · exact enqueue_does strerror s.fd _ _ _ trivial
  | complete ctx res =>
    obtain ⟨hmem, h⟩ := Option.ite_none_right_eq_some.mp h
    cases h
    exact .moved trivial rfl rfl rfl rfl ((IoRing.outstanding_complete hmem res).map _)
  | waitCqe ret buf =>
    obtain ⟨-, h⟩ := Option.ite_none_left_eq_some.mp h
    split_ifs at h with hret
    · cases h
      exact .moved (fun hge => by omega) rfl rfl rfl rfl .rfl
    · cases hcq : s.ring.cq with
      | nil => simp [hcq] at h
      | cons cqe rest =>
        obtain ⟨ctx, res⟩ := cqe
        simp only [hcq, Option.some.injEq] at h
        subst h
        obtain ⟨hserial, hplace⟩ := told_serial strerror ctx res buf
        refine .handled _ hplace ?_ rfl rfl rfl rfl ?_
        · rw [hserial, Fine, hcq]
          constructor
          · exact fun hfine => hfine (by omega) _ rfl
          · rintro hnot - cqe hcqe
            cases hcqe
            exact hnot
        · rw [hserial]
          exact (IoRing.outstanding_advance hcq).map _
  | cqeSeen =>
    obtain ⟨-, h⟩ := Option.ite_none_left_eq_some.mp h
    cases h
    exact .moved trivial rfl rfl rfl rfl .rfl

end steps

structure Entry (s : State) (i : ℕ) : Prop where
  pending_returned : i ∈ s.pending → s.returned[i]? = some true ∨ i ∈ s.left
  left_returned : i ∈ s.left → s.returned[i]? = some false
  unfired_returned : i ∈ s.unfired → s.returned[i]? = some false
  unfired_left : i ∈ s.unfired → i ∉ s.left
  inCall : s.fires i .inCall = if s.returned[i]? = some false ∧ i ∉ s.unfired then 1 else 0
  inLoop : s.fires i .inLoop = if (s.returned[i]? = some true ∨ i ∈ s.left) ∧
      i ∉ s.pending then 1 else 0

structure Book (s : State) : Prop where
  nodup : s.pending.Nodup
  entry : ∀ i, Entry s i
  told : ∀ f ∈ s.fired, f.place = .inCall → f.success = false

structure Same (s t : State) (i : ℕ) : Prop where
  returned : t.returned[i]? = s.returned[i]?
  left : i ∈ t.left ↔ i ∈ s.left
  unfired : i ∈ t.unfired ↔ i ∈ s.unfired
  pending : i ∈ t.pending ↔ i ∈ s.pending
  fires : ∀ place, t.fires i place = s.fires i place

def Sound (s : State) : Prop := s.unfired = [] ∧ ∀ i ∈ s.left, i ∈ s.pending

section runs

variable {strerror : ℕ → Bytes} {s t : State} {a : Action} {as : List Action} {i : ℕ}
    {place : Place}

lemma fires_append {f : Fired} (h : t.fired = s.fired ++ [f]) :
    t.fires i place = s.fires i place + if f.serial = i ∧ f.place = place then 1 else 0 := by
  rw [State.fires, State.fires, h, List.countP_append, List.countP_singleton]
  by_cases hf : f.serial = i ∧ f.place = place
  · simp [hf]
  · simp [hf]

lemma fires_same (h : t.fired = s.fired) :
    t.fires i place = s.fires i place := by rw [State.fires, State.fires, h]

lemma returned_append {r : Bool} (h : t.returned = s.returned ++ [r]) :
    t.returned[i]? = if i = s.serial then some r else s.returned[i]? := by
  rw [h, State.serial]
  by_cases hi : i = s.returned.length
  · rw [if_pos hi, hi, List.getElem?_concat_length]
  · rw [if_neg hi]
    rcases Nat.lt_or_gt_of_ne hi with hlt | hgt
    · exact List.getElem?_append_left hlt
    · have hlen : (s.returned ++ [r]).length ≤ i := by
        rw [List.length_append, List.length_singleton]
        omega
      rw [List.getElem?_eq_none hlen, List.getElem?_eq_none (by omega)]

lemma returned_serial : s.returned[s.serial]? = none := List.getElem?_eq_none le_rfl

lemma Entry.same (h : Entry s i) (hs : Same s t i) : Entry t i := by
  obtain ⟨returned, left, unfired, pending, fires⟩ := hs
  refine ⟨?_, ?_, ?_, ?_, ?_, ?_⟩
  · rw [pending, returned, left]
    exact h.pending_returned
  · rw [left, returned]
    exact h.left_returned
  · rw [unfired, returned]
    exact h.unfired_returned
  · rw [unfired, left]
    exact h.unfired_left
  · simp only [fires, returned, unfired, h.inCall]
  · simp only [fires, returned, left, pending, h.inLoop]

structure Fresh (s : State) : Prop where
  pending : s.serial ∉ s.pending
  left : s.serial ∉ s.left
  unfired : s.serial ∉ s.unfired
  fires : ∀ place, s.fires s.serial place = 0

lemma Entry.fresh (h : Entry s s.serial) : Fresh s := by
  have hnone := returned_serial (s := s)
  have hleft : s.serial ∉ s.left := fun hmem => by simpa [hnone] using h.left_returned hmem
  refine ⟨fun hmem => ?_, hleft,
    fun hmem => by simpa [hnone] using h.unfired_returned hmem, fun place => ?_⟩
  · rcases h.pending_returned hmem with hreturned | hmem
    · simp [hnone] at hreturned
    · exact hleft hmem
  · cases place with
    | inCall => rw [h.inCall, hnone, if_neg (by simp)]
    | inLoop => rw [h.inLoop, hnone, if_neg (by simp [hleft])]

lemma book_new (ready : Bool) : Book (State.new ready) where
  nodup := List.nodup_nil
  entry i :=
    ⟨by simp [State.pending, State.new,
      IoRing.outstanding], by simp [State.new], by simp [State.new],
    by simp [State.new], by simp [State.fires, State.new], by simp [State.fires, State.new]⟩
  told f hf := by cases hf

lemma told_append {f : Fired} (h : Book s) (hfired : t.fired = s.fired ++ [f])
    (hf : f.place = .inCall → f.success = false) : ∀ g ∈ t.fired, g.place = .inCall →
    g.success = false := by
  rw [hfired]
  exact List.forall_mem_append.mpr ⟨h.told, List.forall_mem_singleton.mpr hf⟩

lemma Book.call (h : Book s) (hnodup : t.pending.Nodup) (hnew : Entry t s.serial)
    (hsame : ∀ i ≠ s.serial, Same s t i)
    (htold : ∀ f ∈ t.fired, f.place = .inCall → f.success = false) : Book t := by
  refine ⟨hnodup, fun i => ?_, htold⟩
  by_cases hi : i = s.serial
  · rw [hi]
    exact hnew
  · exact (h.entry i).same (hsame i hi)

lemma Entry.handled {f : Fired} (h : Entry s f.serial) (place : f.place = .inLoop)
    (was : f.serial ∈ s.pending)
    (gone : f.serial ∉ t.pending) (returned : t.returned = s.returned)
    (fired : t.fired = s.fired ++ [f])
    (unfired : t.unfired = s.unfired) (left : t.left = s.left) : Entry t f.serial := by
  have hor := h.pending_returned was
  refine ⟨fun hmem => absurd hmem gone, ?_, ?_, ?_, ?_, ?_⟩
  · rw [left, returned]
    exact h.left_returned
  · rw [unfired, returned]
    exact h.unfired_returned
  · rw [unfired, left]
    exact h.unfired_left
  · simp only [fires_append fired, h.inCall, place, reduceCtorEq, and_false, if_false, Nat.add_zero,
      returned, unfired]
  · simp only [fires_append fired, h.inLoop, place, was, gone, hor, returned, left, not_true,
      not_false_eq_true,
      and_false, and_self, if_false, if_true, Nat.zero_add]

lemma Book.step (h : Book s) (hs : step strerror s a = some t) : Book t := by
  obtain ⟨hpending, hleft, hunfired, hfires⟩ := (h.entry s.serial).fresh
  have hfresh := List.nodup_cons.mpr ⟨hpending, h.nodup⟩
  cases step_does hs with
  | failed f own place told fine returned fired unfired left pending =>
    apply h.call (pending.nodup_iff.mpr h.nodup)
    · constructor <;>
        simp [returned_append returned, fires_append fired, own, place, left, unfired,
          pending.mem_iff,
        hpending, hleft, hunfired, hfires]
    · intro i hi
      constructor <;>
        simp [returned_append returned, fires_append fired, own, left, unfired, pending.mem_iff, hi,
        Ne.symm hi]
    · exact told_append h fired (fun _ => told)
  | leftBehind f own place told fine returned fired unfired left pending =>
    apply h.call (pending.nodup_iff.mpr hfresh)
    · constructor <;>
        simp [returned_append returned, fires_append fired, own, place, left, unfired,
          pending.mem_iff,
        hunfired, hfires]
    · intro i hi
      constructor <;>
        simp [returned_append returned, fires_append fired, own, left, unfired, pending.mem_iff, hi,
        Ne.symm hi]
    · exact told_append h fired (fun _ => told)
  | silent wrong returned fired unfired left pending =>
    apply h.call (pending.nodup_iff.mpr h.nodup)
    · constructor <;>
        simp [returned_append returned, fires_same fired, left, unfired, pending.mem_iff, hpending,
          hleft,
        hfires]
    · intro i hi
      constructor <;>
        simp [returned_append returned, fires_same fired, left, unfired, pending.mem_iff, hi]
    · rw [fired]
      exact h.told
  | started fine returned fired unfired left pending =>
    apply h.call (pending.nodup_iff.mpr hfresh)
    · constructor <;>
        simp [returned_append returned, fires_same fired, left, unfired, pending.mem_iff, hleft,
          hunfired,
        hfires]
    · intro i hi
      constructor <;>
        simp [returned_append returned, fires_same fired, left, unfired, pending.mem_iff, hi]
    · rw [fired]
      exact h.told
  | moved fine returned fired unfired left pending =>
    refine ⟨pending.nodup_iff.mpr h.nodup, fun i => ?_, by rw [fired]; exact h.told⟩
    exact (h.entry i).same
      ⟨by rw [returned], by rw [left], by rw [unfired], pending.mem_iff, fun _ => fires_same fired⟩
  | handled f place fine returned fired unfired left pending =>
    obtain ⟨hgone, hnodup⟩ := List.nodup_cons.mp (pending.nodup_iff.mp h.nodup)
    have hwas : f.serial ∈ s.pending := pending.mem_iff.mpr (List.mem_cons_self ..)
    refine ⟨hnodup, fun i => ?_, told_append h fired (fun hcall => ?_)⟩
    · by_cases hi : i = f.serial
      · rw [hi]
        exact (h.entry f.serial).handled place hwas hgone returned fired unfired left
      · apply (h.entry i).same
        constructor <;>
          simp [returned, left, unfired, fires_append fired, pending.mem_iff, hi, Ne.symm hi]
    · rw [place] at hcall
      cases hcall

lemma book_run {ready : Bool} {ok : State → Action → Prop}
    (h : Run (AsyncClient.step strerror) ok (State.new ready) as s) : Book s :=
  h.invariant (book_new ready) (fun _ _ _ hu _ hs => hu.step hs)

lemma Book.once_iff (h : Book s) : s.ExactlyOnce ↔ Sound s := by
  constructor
  · intro honce
    refine ⟨List.eq_nil_iff_forall_not_mem.mpr (fun i hi => ?_), fun i hi => ?_⟩
    · have hentry := h.entry i
      have hone := (honce.failed i (hentry.unfired_returned hi)).1
      simp [hentry.inCall, hi] at hone
    · have hentry := h.entry i
      have hnone := (honce.failed i (hentry.left_returned hi)).2
      by_contra hgone
      simp [hentry.inLoop, hi, hgone] at hnone
  · rintro ⟨hunfired, hleft⟩
    refine ⟨fun i hi => ⟨?_, ?_⟩, fun i hi => ⟨?_, ?_⟩, h.told⟩
    · simp [(h.entry i).inCall, hi, hunfired]
    · simpa [(h.entry i).inLoop, hi] using hleft i
    · simp [(h.entry i).inCall, hi]
    · by_cases hmem : i ∈ s.pending
      · simp [(h.entry i).inLoop, hi, hmem]
      · simp [(h.entry i).inLoop, hi, hmem]

lemma sound_step (h : Book s) (hs : AsyncClient.step strerror s a = some t) : Sound t ↔ Sound s ∧
    Fine s a := by
  obtain ⟨hpending, hleft, hunfired, -⟩ := (h.entry s.serial).fresh
  have hne : ∀ i ∈ s.left, i ≠ s.serial := fun i hi he => hleft (he ▸ hi)
  cases step_does hs with
  | failed f own place told fine returned fired unfired left pending =>
    simp [Sound, unfired, left, pending.mem_iff, fine]
  | leftBehind f own place told fine returned fired unfired left pending =>
    have hpend : ∀ i ∈ s.left, (i ∈ t.pending ↔ i ∈ s.pending) := by
      intro i hi
      rw [pending.mem_iff, List.mem_cons, or_iff_right (hne i hi)]
    rw [Sound, Sound, unfired, left, List.forall_mem_append, forall₂_congr hpend]
    simp [fine, pending.mem_iff]
  | silent wrong returned fired unfired left pending =>
    simp [Sound, unfired, wrong]
  | started fine returned fired unfired left pending =>
    have hpend : ∀ i ∈ s.left, (i ∈ t.pending ↔ i ∈ s.pending) := by
      intro i hi
      rw [pending.mem_iff, List.mem_cons, or_iff_right (hne i hi)]
    rw [Sound, Sound, unfired, left, forall₂_congr hpend]
    simp [fine]
  | moved fine returned fired unfired left pending =>
    simp [Sound, unfired, left, pending.mem_iff, fine]
  | handled f place fine returned fired unfired left pending =>
    obtain ⟨hgone, -⟩ := List.nodup_cons.mp (pending.nodup_iff.mp h.nodup)
    rw [Sound, Sound, unfired, left, fine]
    constructor
    · rintro ⟨hnone, hall⟩
      refine ⟨⟨hnone, fun i hi => ?_⟩, fun hmem => hgone (hall _ hmem)⟩
      exact pending.mem_iff.mpr (List.mem_cons_of_mem _ (hall i hi))
    · rintro ⟨⟨hnone, hall⟩, hmem⟩
      refine ⟨hnone, fun i hi => ?_⟩
      rcases List.mem_cons.mp (pending.mem_iff.mp (hall i hi)) with rfl | hi
      · exact absurd hi hmem
      · exact hi

end runs

def leftActions : List Action :=
  [.asyncConnect (text "10.0.0.1") 8000 (some 5) true 1, .asyncWrite (text "hi") true (-11),
    .asyncRead true 2,
    .complete ⟨.send (some 5) (text "hi"), 1⟩ 2, .waitCqe 0 []]

theorem fires_twice : ¬ ∀ (strerror : ℕ → Bytes) (ready : Bool) (as : List Action) (t : State),
    Run (step strerror) Any (State.new ready) as t → t.ExactlyOnce := by
  intro hall
  obtain ⟨t, hexec, ht⟩ :=
    exec_any (show (exec (step (fun _ => [])) (State.new true) leftActions).any
    (fun t => decide (t.returned[1]? = some false ∧ t.fires 1 .inLoop = 1)) = true by
      decide +kernel)
  obtain ⟨hreturned, hfires⟩ := of_decide_eq_true ht
  have honce := hall _ _ _ _ (.of_exec hexec (by decide +kernel))
  have hzero := (honce.failed 1 hreturned).2
  omega

/-- The callbacks are invoked once each in the runs where no socket call fails and no completion of
a failed submit is taken, and in no others. -/
theorem fires_once (strerror : ℕ → Bytes) {ready : Bool} {as : List Action} {t : State}
    (h : Run (step strerror) Any (State.new ready) as t) :
    t.ExactlyOnce ↔ Run (step strerror) Fine (State.new ready) as t := by
  rw [(book_run h).once_iff]
  constructor
  · intro hsound
    induction h with
    | nil => exact .nil
    | snoc hr _ hs ih =>
      obtain ⟨hsound, hfine⟩ := (sound_step (book_run hr) hs).mp hsound
      exact .snoc (ih hsound) hfine hs
  · intro hrun
    clear h
    induction hrun with
    | nil => exact ⟨rfl, fun i hi => by cases hi⟩
    | snoc hr hfine hs ih => exact (sound_step (book_run hr) hs).mpr ⟨ih, hfine⟩

def sampleActions : List Action :=
  [.asyncConnect (text "10.0.0.1") 8000 (some 5) true 1, .asyncWrite (text "hi") false 1,
    .complete ⟨.connect (some 5) [10, 0, 0, 1] 8000, 0⟩ 0, .waitCqe 0 [], .asyncRead true 1,
    .cqeSeen,
    .complete ⟨.recv (some 5) 0 4096, 2⟩ (-104), .waitCqe 0 []]

theorem fires_once_sample : ∃ t, exec (step (fun _ => [])) (State.new true) sampleActions = some t ∧
    t.returned = [true, false, true] ∧ t.ExactlyOnce := by
  obtain ⟨t, hexec, ht⟩ :=
    exec_any (show (exec (step (fun _ => [])) (State.new true) sampleActions).any
    (fun t => decide (t.returned = [true, false, true])) = true by decide +kernel)
  have hrun : Run (step (fun _ => [])) Fine (State.new true) sampleActions t :=
    .of_exec hexec (by decide +kernel)
  exact ⟨t, hexec, of_decide_eq_true ht, (fires_once (fun _ => []) hrun.any).mpr hrun⟩

end KimRpc.Client.AsyncClient
