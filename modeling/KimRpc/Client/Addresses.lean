import KimRpc.Discovery.Json
import KimRpc.Library.Runs
import KimRpc.Wire.Frames

/-! The address of an instance on its way from discovery to a connection: the split at
the colon, the number read from the rest, and what a call comes to when they fail. -/

namespace KimRpc.Client

open Discovery Library.Decimal Library.Runs Wire

/-- The text of an address in a key of the store, which sends no message of 2 GiB. -/
structure HostData where
  bytes : Bytes
  short : bytes.length < 2 ^ 31

section split

/-- `std::string::substr`; none is an exception. -/
def substr (s : Bytes) (pos len : ℕ) : Option Bytes :=
  if s.length < pos then none else some ((s.drop pos).take len)

def sizeT (n : ℤ) : ℕ := (n % 2 ^ 64).toNat

/-- `std::stoi`; none is an exception. -/
def stoi (s : Bytes) : Option ℤ := (stoll s).filter (fun n => -2 ^ 31 ≤ n ∧ n < 2 ^ 31)

def colon (hostData : Bytes) :
    ℤ := Int.bmod (if 58 ∈ hostData then hostData.idxOf 58 else 2 ^ 64 - 1) (2 ^ 32)

/-- The ip, and the port as the 16 bits that are left of the number; none is an exception. -/
def ipPort (hostData : Bytes) : Option (Bytes × ℕ) := do
  let idx := colon hostData
  let ip ← substr hostData 0 (sizeT idx)
  let rest ← substr hostData (sizeT (idx + 1)) (sizeT (hostData.length - idx))
  let n ← stoi rest
  pure (ip, (n % 2 ^ 16).toNat)

variable {hostData ip rest : Bytes} {port : ℕ}

def Written (hostData : Bytes) (port : ℕ) : Prop :=
  ∃ ip digits, hostData = ip ++ 58 :: digits ∧ 58 ∉ ip ∧ digits ≠ [] ∧ (∀ c ∈ digits, IsDigit c) ∧
    readDigits digits = port ∧ port < 2 ^ 16

lemma stoi_digits (hne : rest ≠ []) (hdigits : ∀ c ∈ rest, IsDigit c)
    (h : readDigits rest < 2 ^ 31) :
    stoi rest = some (readDigits rest : ℤ) := by
  rw [stoi, stoll_digits hne hdigits (by omega)]
  exact Option.filter_eq_some_iff.mpr ⟨rfl, by simp; omega⟩

lemma colon_none (h : 58 ∉ hostData) : colon hostData = -1 := by
  rw [colon, if_neg h]
  decide

lemma colon_split (h : hostData = ip ++ 58 :: rest) (hip : 58 ∉ ip)
    (hshort : hostData.length < 2 ^ 31) :
    colon hostData = ip.length := by
  subst h
  rw [List.length_append, List.length_cons] at hshort
  have hmem : 58 ∈ ip ++ 58 :: rest := by simp
  have hidx : (ip ++ 58 :: rest).idxOf 58 = ip.length := by
    rw [List.idxOf_append_of_notMem hip, List.idxOf_cons_self, Nat.add_zero]
  rw [colon, if_pos hmem, hidx]
  exact Int.bmod_eq_of_le (by omega) (by omega)

lemma sizeT_nat {n : ℕ} (h : n < 2 ^ 64) : sizeT n = n := by
  rw [sizeT]
  omega

lemma ipPort_split (h : hostData = ip ++ 58 :: rest) (hip : 58 ∉ ip)
    (hshort : hostData.length < 2 ^ 31) :
    ipPort hostData = (stoi rest).map (fun n => (ip, (n % 2 ^ 16).toNat)) := by
  have hcolon := colon_split h hip hshort
  subst h
  have hlen : (ip ++ 58 :: rest).length = ip.length + 1 + rest.length := by
    rw [List.length_append, List.length_cons]
    omega
  have hsize : sizeT (ip.length + 1 : ℤ) = ip.length + 1 :=
    sizeT_nat (n := ip.length + 1) (by omega)
  have hcount : sizeT (((ip ++ 58 :: rest).length : ℤ) - ip.length) = rest.length + 1 := by
    have hsub : ((ip ++ 58 :: rest).length : ℤ) - ip.length = (rest.length + 1 : ℕ) := by
      rw [hlen]
      push_cast
      ring
    rw [hsub, sizeT_nat (by omega)]
  have hfirst : substr (ip ++ 58 :: rest) 0 ip.length = some ip := by simp [substr]
  have hsecond : substr (ip ++ 58 :: rest) (ip.length + 1) (rest.length + 1) = some rest := by
    have hdrop : (ip ++ 58 :: rest).drop (ip.length + 1) = rest := by
      rw [List.drop_append]
      simp
    rw [substr, if_neg (by omega), hdrop, List.take_of_length_le (by omega)]
  rw [ipPort]
  simp only [hcolon, hsize, hcount, sizeT_nat (n := ip.length) (by omega), hfirst, hsecond]
  cases hn : stoi rest <;> simp [hn]

lemma Written.ipPort (h : Written hostData port) (hshort : hostData.length < 2 ^ 31) :
    ∃ ip, ipPort hostData = some (ip, port) := by
  obtain ⟨ip, digits, he, hip, hne, hdigits, rfl, hport⟩ := h
  refine ⟨ip, ?_⟩
  rw [ipPort_split he hip hshort, stoi_digits hne hdigits (by omega), Option.map_some]
  have hmod : ((readDigits digits : ℤ) % 2 ^ 16).toNat = readDigits digits := by omega
  rw [hmod]

lemma colon_eq (hshort : hostData.length < 2 ^ 31) : colon hostData = -1 ↔ 58 ∉ hostData := by
  constructor
  · intro h hmem
    obtain ⟨ip, rest, he, hip⟩ := List.eq_append_cons_of_mem hmem
    rw [colon_split he hip hshort] at h
    omega
  · exact colon_none

end split

section ip

def ptonStep (s : List ℕ × Option ℕ) (c : UInt8) : Option (List ℕ × Option ℕ) :=
  if IsDigit c then
    match s.2 with
    | none => some (s.1, some (c.toNat - 48))
    | some 0 => none
    | some n =>
      if 10 * n + (c.toNat - 48) > 255 then none else some (s.1, some (10 * n + (c.toNat - 48)))
  else if c = 46 then
    match s.2 with
    | none => none
    | some n => if s.1.length = 3 then none else some (s.1 ++ [n], none)
  else none

def inetPton (ip : Bytes) : Option (List ℕ) :=
  (ip.foldlM ptonStep ([], none)).bind (fun s =>
    s.2.bind (fun n => if s.1.length = 3 then some (s.1 ++ [n]) else none))

def width (s : List ℕ × Option ℕ) : ℕ :=
  4 * s.1.length + match s.2 with
    | none => 0
    | some n => if n < 10 then 1 else if n < 100 then 2 else 3

lemma ptonStep_some {s t : List ℕ × Option ℕ} {c : UInt8} (h : ptonStep s c = some t) :
    (IsDigit c ∨ c = 46) ∧ width s + 1 ≤ width t := by
  obtain ⟨octets, current⟩ := s
  rw [ptonStep] at h
  by_cases hdigit : IsDigit c
  · have hc := hdigit.2
    rw [if_pos hdigit] at h
    refine ⟨.inl hdigit, ?_⟩
    match current, h with
    | none, h =>
      cases h
      simp only [width]
      rw [if_pos (by omega)]
    | some (n + 1), h =>
      simp only at h
      split_ifs at h with hlarge
      cases h
      simp only [width]
      split_ifs <;> omega
  · rw [if_neg hdigit] at h
    by_cases hdot : c = 46
    · rw [if_pos hdot] at h
      refine ⟨.inr hdot, ?_⟩
      match current, h with
      | some n, h =>
        simp only at h
        split_ifs at h with hfull
        cases h
        simp only [width, List.length_append, List.length_singleton]
        split_ifs <;> omega
    · rw [if_neg hdot] at h
      cases h

lemma foldlM_pton {cs : Bytes} {s t : List ℕ × Option ℕ} (h : cs.foldlM ptonStep s = some t) :
    (∀ c ∈ cs, IsDigit c ∨ c = 46) ∧ width s + cs.length ≤ width t := by
  induction cs generalizing s with
  | nil =>
    cases h
    exact ⟨nofun, le_rfl⟩
  | cons c cs ih =>
    rw [List.foldlM_cons] at h
    obtain ⟨u, hu, hrest⟩ := Option.bind_eq_some_iff.mp h
    obtain ⟨hc, hwidth⟩ := ptonStep_some hu
    obtain ⟨hcs, hlen⟩ := ih hrest
    rw [List.length_cons]
    exact ⟨List.forall_mem_cons.mpr ⟨hc, hcs⟩, by omega⟩

lemma inetPton_some {ip : Bytes} (h : (inetPton ip).isSome = true) :
    (∀ c ∈ ip, IsDigit c ∨ c = 46) ∧ ip.length ≤ 15 := by
  obtain ⟨octets, hsome⟩ := Option.isSome_iff_exists.mp h
  obtain ⟨s, hs, hlast⟩ := Option.bind_eq_some_iff.mp hsome
  obtain ⟨n, hn, hthree⟩ := Option.bind_eq_some_iff.mp hlast
  obtain ⟨hchars, hlen⟩ := foldlM_pton hs
  refine ⟨hchars, ?_⟩
  have hwidth : width s ≤ 15 := by
    split_ifs at hthree with hlength
    simp only [width, hn, hlength]
    split_ifs <;> omega
  exact le_trans (by omega) hwidth

end ip

/-- The fields that `ensureConnected` goes by, and the ip and port that the open socket was
connected to. -/
structure Endpoint where
  clientfd : Option ℕ := none
  running : Bool := false
  connectedHost : Bytes := []
  joinable : Bool := false
  peer : Option (Bytes × ℕ) := none
  deriving DecidableEq

structure Kernel where
  socket : Except ℕ ℕ
  connect : Option ℕ

inductive Ensured where
  | connected
  | failed (error : Bytes)
  | thrown
  deriving DecidableEq

namespace Endpoint

def Connected (s : Endpoint) (hostData : Bytes) : Prop :=
  s.clientfd ≠ none ∧ s.running = true ∧ s.connectedHost = hostData

instance (s : Endpoint) (hostData : Bytes) : Decidable (s.Connected hostData) :=
  inferInstanceAs (Decidable (_ ∧ _ ∧ _))

/-- `ensureConnected` from the split of the address on, with the old connection cleared. -/
def dial (k : Kernel) (hostData : Bytes) : Ensured × Endpoint :=
  if colon hostData = -1 then (.failed (hostData ++ text " address is invalid"), {})
  else
    match ipPort hostData with
    | none => (.thrown, {})
    | some (ip, port) =>
      match k.socket with
      | .error errno => (.failed (text "create socket error! errno:" ++ decimal errno), {})
      | .ok fd =>
        match k.connect with
        | some errno => (.failed (text "connect error! errno:" ++ decimal errno), {})
        | none => (.connected, ⟨some fd, true, hostData, true, some (ip, port)⟩)

/-- The return value, or an exception, and the fields as they are then. A thread cannot join
itself; when it is joined, the receive loop has set running to false. -/
def ensureConnected (k : Kernel) (onRecvThread : Bool) (hostData : Bytes) (s : Endpoint) :
    Ensured × Endpoint :=
  if s.Connected hostData then (.connected, s)
  else if s.joinable = true ∧
  onRecvThread = true then (.thrown, { s with clientfd := none, peer := none })
  else dial k hostData

inductive Action where
  | ensure (k : Kernel) (onRecvThread : Bool) (hostData : HostData)
  | recvLoopEnds

def step (s : Endpoint) : Action → Option Endpoint
  | .ensure k onRecvThread hostData => some (ensureConnected k onRecvThread hostData.bytes s).2
  | .recvLoopEnds => if s.joinable = true then some { s with running := false } else none

end Endpoint

structure Progress where
  doneRuns : ℕ := 0
  failed : Option Bytes := none
  registered : Bool := false
  deriving DecidableEq

def Progress.fail (reason : Bytes) : Progress := { doneRuns := 1, failed := some reason }

structure AsyncCall where
  codec : HeaderCodec
  serviceName : Bytes
  methodName : Bytes
  argsStr : Option Bytes
  requestId : UInt64

/-- `callAsync` up to the registration; none is an exception that leaves it. -/
def callAsync (call : AsyncCall) (address : Except Bytes HostData) (k : Kernel)
    (onRecvThread : Bool) (s : Endpoint) :
    Option Progress × Endpoint :=
  match call.argsStr with
  | none => (some (.fail (text "serialize request error!")), s)
  | some argsStr =>
    match sendRpcStr call.codec ⟨call.serviceName, call.methodName, call.requestId, argsStr⟩ with
    | none => (some (.fail (text "serialize rpcHeader error!")), s)
    | some _ =>
      match address with
      | .error error => (some (.fail error), s)
      | .ok hostData =>
        match s.ensureConnected k onRecvThread hostData.bytes with
        | (.failed error, s) => (some (.fail error), s)
        | (.thrown, s) => (none, s)
        | (.connected, s) => (some { registered := true }, s)

section handled

def Ensures (hostData : Bytes) : Ensured × Endpoint → Prop
  | (.connected, s) => ∃ port, Written hostData port ∧ s.clientfd ≠ none ∧
      ∃ ip, s.peer = some (ip, port)
  | (.failed error, s) => error ≠ [] ∧ s.clientfd = none ∧ s.connectedHost = []
  | (.thrown, _) => False

def Completes (hostData : Bytes) : Option Progress × Endpoint → Prop
  | (none, _) => False
  | (some progress, s) =>
    if progress.registered then
      progress.doneRuns = 0 ∧ ∃ port, Written hostData port ∧ s.clientfd ≠ none ∧
      ∃ ip, s.peer = some (ip, port)
    else progress.doneRuns = 1 ∧ progress.failed.isSome = true

def Handled (s : Endpoint) (onRecvThread : Bool) (hostData : HostData) : Prop :=
  ∀ k, Ensures hostData.bytes (s.ensureConnected k onRecvThread hostData.bytes) ∧
    ∀ call, Completes hostData.bytes (callAsync call (.ok hostData) k onRecvThread s)

/-- There is no colon or the port is written after it, and the thread that would have to join
the receive thread is another one. -/
def Usable (s : Endpoint) (onRecvThread : Bool) (hostData : HostData) : Prop :=
  (58 ∉ hostData.bytes ∨ ∃ port, Written hostData.bytes port) ∧
    (s.Connected hostData.bytes ∨ ¬ (s.joinable = true ∧ onRecvThread = true))

namespace Endpoint

variable {s t : Endpoint} {k : Kernel} {onRecvThread : Bool} {hostData : HostData}
    {as : List Action}

def Dialled (s : Endpoint) : Prop :=
  s.clientfd ≠ none → ∃ hostData : HostData, s.connectedHost = hostData.bytes ∧
  58 ∈ hostData.bytes ∧
    s.peer = ipPort hostData.bytes

lemma dialled_dial (k : Kernel) (hostData : HostData) : (dial k hostData.bytes).2.Dialled := by
  unfold dial
  split_ifs with hcolon
  · exact nofun
  · have hmem : 58 ∈ hostData.bytes := by_contra fun hnone => hcolon (colon_none hnone)
    cases hpeer : ipPort hostData.bytes with
    | none => exact nofun
    | some peer =>
      cases k.socket with
      | error errno => exact nofun
      | ok fd =>
        cases k.connect with
        | some errno => exact nofun
        | none => exact fun _ => ⟨hostData, rfl, hmem, hpeer.symm⟩

lemma dialled_ensureConnected (h : s.Dialled) (k : Kernel) (onRecvThread : Bool)
    (hostData : HostData) :
    (s.ensureConnected k onRecvThread hostData.bytes).2.Dialled := by
  unfold ensureConnected
  split_ifs
  · exact h
  · exact nofun
  · exact dialled_dial k hostData

lemma dialled_step {a : Action} (h : s.Dialled) (hstep : step s a = some t) : t.Dialled := by
  cases a with
  | ensure k onRecvThread hostData =>
    cases hstep
    exact dialled_ensureConnected h k onRecvThread hostData
  | recvLoopEnds =>
    simp only [step] at hstep
    split_ifs at hstep
    cases hstep
    exact h

lemma dialled_run (h : Run step Any {} as s) : s.Dialled :=
  h.invariant nofun (fun _ _ _ hu _ hs => dialled_step hu hs)

lemma ensures_dial (h : 58 ∉ hostData.bytes ∨ ∃ port, Written hostData.bytes port) (k : Kernel) :
    Ensures hostData.bytes (dial k hostData.bytes) := by
  unfold dial
  split_ifs with hcolon
  · exact ⟨List.append_ne_nil_of_right_ne_nil _ (by decide), rfl, rfl⟩
  have hmem : 58 ∈ hostData.bytes := by_contra fun hnone => hcolon (colon_none hnone)
  obtain ⟨port, hport⟩ := h.resolve_left (not_not.mpr hmem)
  obtain ⟨ip, hip⟩ := hport.ipPort hostData.short
  rw [hip]
  cases k.socket with
  | error errno => exact ⟨List.append_ne_nil_of_left_ne_nil (by decide) _, rfl, rfl⟩
  | ok fd =>
    cases k.connect with
    | some errno => exact ⟨List.append_ne_nil_of_left_ne_nil (by decide) _, rfl, rfl⟩
    | none => exact ⟨port, hport, Option.some_ne_none fd, ip, rfl⟩

lemma ensures_of_usable (hs : s.Dialled) (h : Usable s onRecvThread hostData) (k : Kernel) :
    Ensures hostData.bytes (s.ensureConnected k onRecvThread hostData.bytes) := by
  obtain ⟨hwritten, hthread⟩ := h
  unfold ensureConnected
  split_ifs with hconnected hself
  · obtain ⟨hostData', hhost, hmem, hpeer⟩ := hs hconnected.1
    rw [← hhost, hconnected.2.2] at hmem hpeer
    obtain ⟨port, hport⟩ := hwritten.resolve_left (not_not.mpr hmem)
    obtain ⟨ip, hip⟩ := hport.ipPort hostData.short
    exact ⟨port, hport, hconnected.1, ip, hpeer.trans hip⟩
  · exact absurd hself (hthread.resolve_left hconnected)
  · exact ensures_dial hwritten k

lemma completes_of_ensures
    (h : Ensures hostData.bytes (s.ensureConnected k onRecvThread hostData.bytes))
    (call : AsyncCall) :
    Completes hostData.bytes (callAsync call (.ok hostData) k onRecvThread s) := by
  unfold callAsync
  cases call.argsStr with
  | none => exact ⟨rfl, rfl⟩
  | some argsStr =>
    cases hframe :
      sendRpcStr call.codec ⟨call.serviceName, call.methodName, call.requestId, argsStr⟩ with
    | none =>
      simp only [hframe]
      exact ⟨rfl, rfl⟩
    | some frame =>
      simp only [hframe]
      cases hensured : s.ensureConnected k onRecvThread hostData.bytes with | mk ensured t =>
      rw [hensured] at h
      cases ensured with
      | connected => exact ⟨rfl, h⟩
      | failed error => exact ⟨rfl, rfl⟩
      | thrown => exact h.elim

lemma written_of_dial (h : Ensures hostData.bytes (dial ⟨.ok 3, none⟩ hostData.bytes)) :
    58 ∉ hostData.bytes ∨ ∃ port, Written hostData.bytes port := by
  unfold dial at h
  split_ifs at h with hcolon
  · exact .inl ((colon_eq hostData.short).mp hcolon)
  · cases hpeer : ipPort hostData.bytes with
    | none =>
      rw [hpeer] at h
      exact h.elim
    | some peer =>
      rw [hpeer] at h
      obtain ⟨port, hport, -⟩ := h
      exact .inr ⟨port, hport⟩

lemma usable_of_ensures
    (h : ∀ k, Ensures hostData.bytes (s.ensureConnected k onRecvThread hostData.bytes)) :
    Usable s onRecvThread hostData := by
  have hopen := h ⟨.ok 3, none⟩
  unfold ensureConnected at hopen
  split_ifs at hopen with hconnected hself
  · obtain ⟨port, hport, -⟩ := hopen
    exact ⟨.inr ⟨port, hport⟩, .inl hconnected⟩
  · exact hopen.elim
  · exact ⟨written_of_dial hopen, .inr hself⟩

theorem address_handled (h : Run step Any {} as s) (onRecvThread : Bool) (hostData : HostData) :
    Handled s onRecvThread hostData ↔ Usable s onRecvThread hostData := by
  constructor
  · exact fun hhandled => usable_of_ensures (fun k => (hhandled k).1)
  · intro husable k
    have hensures := ensures_of_usable (dialled_run h) husable k
    exact ⟨hensures, completes_of_ensures hensures⟩

theorem address_handled_sample :
    ∃ s, Run step Any {} [.ensure ⟨.ok 3, none⟩ false ⟨text "10.0.0.1:8000", by decide⟩] s ∧
    Handled s false ⟨text "10.0.0.2:0080", by decide⟩ ∧
    ¬ Handled s true ⟨text "10.0.0.2:0080", by decide⟩ := by
  have hrun : Run step Any {} [.ensure ⟨.ok 3, none⟩ false ⟨text "10.0.0.1:8000", by decide⟩]
      ⟨some 3, true, text "10.0.0.1:8000", true, some (text "10.0.0.1", 8000)⟩ :=
    .of_exec rfl ⟨trivial, fun _ _ => trivial⟩
  have hdigits : ∀ c ∈ text "0080", IsDigit c := @of_decide_eq_true _ (List.decidableBAll _ _) rfl
  have hwritten : Written (text "10.0.0.2:0080") 80 :=
    ⟨text "10.0.0.2", text "0080", by decide, by decide, by decide, hdigits, by decide, by decide⟩
  refine ⟨_, hrun, ?_, ?_⟩
  · rw [address_handled hrun]
    exact ⟨.inr ⟨80, hwritten⟩, .inr (by decide)⟩
  · rw [address_handled hrun]
    rintro ⟨-, hconnected | hthread⟩
    · exact absurd hconnected (by decide)
    · exact hthread ⟨rfl, rfl⟩

theorem missing_port : ¬ Handled {} false ⟨text "10.0.0.1:", by decide⟩ := by
  intro h
  have hthrown : (({} : Endpoint).ensureConnected ⟨.ok 3, none⟩ false (text "10.0.0.1:")) =
      (.thrown, {}) := by decide
  have hensures := (h ⟨.ok 3, none⟩).1
  simp only [hthrown] at hensures
  exact hensures

end Endpoint

end handled

end KimRpc.Client
