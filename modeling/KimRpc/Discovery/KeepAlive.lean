import KimRpc.Application.Config
import KimRpc.Application.Logger
import KimRpc.Discovery.Registration

/-! The registration of a provider, request by request, and the loop that renews the lease
of its keys. -/

namespace KimRpc.Discovery.KeepAlive

open Application Library.Decimal Library.Runs Wire

section requests

variable (parse : Bytes → Option Json)

inductive Request where
  | leaseGrant (ttlSec : ℕ)
  | put (r : PutRequest)
  | keepAlive (leaseId : ℤ)
  deriving DecidableEq

def Request.path : Request → Bytes
  | .leaseGrant _ => text "/v3/lease/grant"
  | .put _ => text "/v3/kv/put"
  | .keepAlive _ => text "/v3/lease/keepalive"

def Request.body : Request → Bytes
  | .leaseGrant ttlSec => text "\x7b\"TTL\":" ++ decimal ttlSec ++ text ",\"ID\":0\x7d"
  | .put r => r.body
  | .keepAlive leaseId => text "\x7b\"ID\":" ++ decimal leaseId.toNat ++ text "\x7d"

def leaseGrant (resp : Bytes) : ℤ :=
  if resp = [] then -1
  else
    match parse resp with
    | none => -1
    | some j => jint j "ID" (-1)

def put (resp : Bytes) : Bool :=
  if resp = [] then false
  else
    match parse resp with
    | none => false
    | some j => (j.find "error").isNone && (j.find "header").isSome

/-- What the loop reads in an answer; none is an answer that is missing or not JSON. -/
def ttl (resp : Bytes) : Option ℤ :=
  if resp = [] then none else (parse resp).map (fun j => jint ((j.find "result").getD j) "TTL" (-1))

def Expired (resp : Bytes) : Prop := ttl parse resp = some 0

instance : DecidablePred (Expired parse) :=
  fun resp => inferInstanceAs (Decidable (ttl parse resp = some 0))

end requests

def kLeaseTtl : ℕ := 10

inductive Phase where
  | starting
  | granting
  | putting (leaseId : ℤ) (r : PutRequest) (rest : List PutRequest)
  | waiting (leaseId interval : ℤ)
  | stopped
  | exited
  deriving DecidableEq

structure Session where
  phase : Phase := .starting
  exchanges : List (Request × Bytes) := []
  log : List Bytes := []

/-- The answer to the request that is next, and the stop that ends the wait of the loop. -/
inductive Action where
  | answer (resp : Bytes)
  | stop

def endpoint (config : Config.ConfigMap) : Bytes :=
  let ip := Config.load config (text "etcdip")
  let port := Config.load config (text "etcdport")
  text "http://" ++ (if ip = [] then text "127.0.0.1" else ip) ++
    58 :: (if port = [] then text "2379" else port)

def leased (P : Provider) {leaseId : ℤ} (granted : 0 < leaseId) : Provider :=
  { P with leaseId, granted }

def startKeepAlive (leaseId : ℤ) (ttlSec : ℕ) : Phase :=
  if leaseId ≤ 0 then .stopped else .waiting leaseId (max 1 (ttlSec / 3 : ℕ))

def putNext (leaseId : ℤ) : List PutRequest → Phase
  | [] => startKeepAlive leaseId kLeaseTtl
  | r :: rest => .putting leaseId r rest

namespace Session

def exchanged (s : Session) (request : Request) (resp : Bytes) : Session :=
  { s with exchanges := s.exchanges ++ [(request, resp)] }

def logError (s : Session) (output : Bytes) : Session :=
  { s with log := s.log ++ [Logger.formatted output] }

def exit (s : Session) (output : Bytes) : Session := { s.logError output with phase := .exited }

variable (parse : Bytes → Option Json)

def renew (s : Session) (leaseId : ℤ) (resp : Bytes) : Session :=
  let s := s.exchanged (.keepAlive leaseId) resp
  if resp = [] then s.logError (text "etcd lease keepalive request failed (lease=" ++
    decimal leaseId.toNat ++ text ")")
  else if Expired parse resp then
    s.logError (text "etcd lease " ++ decimal leaseId.toNat ++ text " expired (keepalive TTL=0)")
  else s

/-- The lease that the loop renews next is not known to have expired, and the keys are put under it.
-/
structure KeptAlive (s : Session) (leaseId : ℤ) : Prop where
  live : ∀ resp, (.keepAlive leaseId, resp) ∈ s.exchanges → ¬ Expired parse resp
  keys : ∀ r resp, (.put r, resp) ∈ s.exchanges → put parse resp = true →
    ∃ r' resp', (.put r', resp') ∈ s.exchanges ∧ put parse resp' = true ∧ r'.key = r.key ∧
    r'.leaseId = leaseId

end Session

def step (parse : Bytes → Option Json) (config : Config.ConfigMap) (P : Provider) (s : Session) :
    Action → Option Session
  | .answer resp =>
    match s.phase with
    | .starting =>
      let s := s.exchanged (.leaseGrant 2) resp
      some (if leaseGrant parse resp ≤ 0 then
        (s.logError (text "etcd connect failed at " ++ endpoint config)).exit
          (text "etcd start failed, service register aborted")
        else { s with phase := .granting })
    | .granting =>
      let s := s.exchanged (.leaseGrant kLeaseTtl) resp
      some (if h : 0 < leaseGrant parse resp then
        { s with phase := putNext (leaseGrant parse resp) (leased P h).registerServiceToEtcd }
        else s.exit (text "etcd lease grant failed"))
    | .putting leaseId r rest =>
      let s := s.exchanged (.put r) resp
      some (if put parse resp then { s with phase := putNext leaseId rest }
        else s.exit (text "etcd put failed: " ++ r.key))
    | .waiting leaseId _ => some (s.renew parse leaseId resp)
    | .stopped | .exited => none
  | .stop =>
    match s.phase with
    | .waiting _ _ => some { s with phase := .stopped }
    | _ => none

section runs

variable {parse : Bytes → Option Json} {config : Config.ConfigMap} {P : Provider} {s t : Session}
    {a : Action}
  {as : List Action} {leaseId interval : ℤ}

def Uses (parse : Bytes → Option Json) (leaseId : ℤ) (e : Request × Bytes) : Prop :=
  match e.1 with
  | .leaseGrant _ => True
  | .put r => r.leaseId = leaseId ∧ put parse e.2 = true
  | .keepAlive asked => asked = leaseId

def IsGrant (e : Request × Bytes) : Prop :=
  match e.1 with
  | .leaseGrant _ => True
  | .put _ | .keepAlive _ => False

def OneLease (parse : Bytes → Option Json) (s : Session) : Prop :=
  match s.phase with
  | .starting | .granting => ∀ e ∈ s.exchanges, IsGrant e
  | .putting leaseId r rest => (∀ e ∈ s.exchanges, Uses parse leaseId e) ∧
      ∀ q ∈ r :: rest, q.leaseId = leaseId
  | .waiting leaseId _ => ∀ e ∈ s.exchanges, Uses parse leaseId e
  | .stopped | .exited => True

lemma IsGrant.uses {e : Request × Bytes} (h : IsGrant e) : Uses parse leaseId e := by
  obtain ⟨request, resp⟩ := e
  cases request with
  | leaseGrant ttlSec => trivial
  | put r => cases h
  | keepAlive asked => cases h

lemma leaseId_registered (hgranted : 0 < leaseId) :
    ∀ q ∈ (leased P hgranted).registerServiceToEtcd, q.leaseId = leaseId := by
  intro q hq
  simp only [Provider.registerServiceToEtcd, List.mem_flatMap, List.mem_map] at hq
  obtain ⟨sp, -, mp, -, rfl⟩ := hq
  rfl

lemma oneLease_putNext {rest : List PutRequest}
    (hexchanges : ∀ e ∈ s.exchanges, Uses parse leaseId e)
    (hrest : ∀ q ∈ rest, q.leaseId = leaseId) : OneLease parse { s with
      phase := putNext leaseId rest } := by
  cases rest with
  | nil =>
    by_cases h : leaseId ≤ 0
    · simp [OneLease, putNext, startKeepAlive, h]
    · simpa [OneLease, putNext, startKeepAlive, h] using hexchanges
  | cons r rest => exact ⟨hexchanges, hrest⟩

variable (parse s leaseId) in
lemma renew_phase (resp : Bytes) : (s.renew parse leaseId resp).phase = s.phase ∧
    (s.renew parse leaseId resp).exchanges = s.exchanges ++ [(.keepAlive leaseId, resp)] := by
  rw [Session.renew]
  split_ifs
  · exact ⟨rfl, rfl⟩
  · exact ⟨rfl, rfl⟩
  · exact ⟨rfl, rfl⟩

lemma OneLease.step (h : OneLease parse s) (hs : step parse config P s a = some t) :
    OneLease parse t := by
  cases a with
  | stop =>
    cases hp : s.phase with
    | waiting leaseId interval =>
      simp only [KeepAlive.step, hp, Option.some.injEq] at hs
      subst hs
      trivial
    | _ => simp [KeepAlive.step, hp] at hs
  | answer resp =>
    cases hp : s.phase with
    | starting =>
      simp only [KeepAlive.step, hp, Option.some.injEq] at hs
      simp only [OneLease, hp] at h
      subst hs
      split_ifs
      · trivial
      · exact List.forall_mem_append.mpr ⟨h, List.forall_mem_singleton.mpr trivial⟩
    | granting =>
      simp only [KeepAlive.step, hp, Option.some.injEq] at hs
      simp only [OneLease, hp] at h
      subst hs
      split_ifs with hgranted
      · apply oneLease_putNext
        · exact List.forall_mem_append.mpr
            ⟨fun e he => (h e he).uses, List.forall_mem_singleton.mpr trivial⟩
        · exact leaseId_registered hgranted
      · trivial
    | putting leaseId r rest =>
      simp only [KeepAlive.step, hp, Option.some.injEq] at hs
      simp only [OneLease, hp] at h
      subst hs
      obtain ⟨hexchanges, hrest⟩ := h
      rw [List.forall_mem_cons] at hrest
      split_ifs with hput
      · apply oneLease_putNext
        · exact List.forall_mem_append.mpr
            ⟨hexchanges, List.forall_mem_singleton.mpr ⟨hrest.1, hput⟩⟩
        · exact hrest.2
      · trivial
    | waiting leaseId interval =>
      simp only [KeepAlive.step, hp, Option.some.injEq] at hs
      simp only [OneLease, hp] at h
      subst hs
      obtain ⟨hphase, hexchanges⟩ := renew_phase parse s leaseId resp
      simp only [OneLease, hphase, hp, hexchanges]
      exact List.forall_mem_append.mpr ⟨h, List.forall_mem_singleton.mpr rfl⟩
    | stopped => simp [KeepAlive.step, hp] at hs
    | exited => simp [KeepAlive.step, hp] at hs

lemma oneLease_run (h : Run (step parse config P) Any {} as s) : OneLease parse s := by
  refine h.invariant ?_ (fun _ _ _ hu _ hs => hu.step hs)
  intro e he
  cases he

lemma OneLease.waiting (h : OneLease parse s) (hw : s.phase = .waiting leaseId interval) :
    ∀ e ∈ s.exchanges, Uses parse leaseId e := by
  simpa only [OneLease, hw] using h

end runs

def grantedText : Bytes := text "\x7b\"ID\":\"7\",\"TTL\":\"10\"\x7d"

def putText : Bytes := text "\x7b\"header\":\x7b\x7d\x7d"

def renewedText : Bytes := text "\x7b\"result\":\x7b\"ID\":\"7\",\"TTL\":\"10\"\x7d\x7d"

def expiredText : Bytes := text "\x7b\"result\":\x7b\"ID\":\"7\",\"TTL\":\"0\"\x7d\x7d"

def sampleParse (resp : Bytes) : Option Json :=
  [(grantedText, .object [("ID", .string (text "7")), ("TTL", .string (text "10"))]),
    (putText, .object [("header", .object [])]),
    (renewedText,
      .object [("result", .object [("ID", .string (text "7")), ("TTL", .string (text "10"))])]),
    (expiredText, .object
      [("result", .object [("ID", .string (text "7")), ("TTL", .string (text "0"))])])].lookup resp

def registration : List Action :=
  [.answer grantedText, .answer grantedText, .answer putText, .answer putText]

theorem expired_lease_renewed : ¬ ∀ (parse : Bytes → Option Json) (config : Config.ConfigMap)
    (P : Provider)
    (as : List Action) (s : Session) (leaseId interval : ℤ), Run (step parse config P) Any {} as s →
      s.phase = .waiting leaseId interval → s.KeptAlive parse leaseId := by
  intro hall
  obtain ⟨s, hexec, hs⟩ := exec_any (show (exec (step sampleParse [] sampleProvider) {}
    (registration ++ [.answer expiredText])).any (fun s => decide (s.phase = .waiting 7 3 ∧
      (.keepAlive 7, expiredText) ∈ s.exchanges)) = true by decide +kernel)
  obtain ⟨hphase, hmem⟩ := of_decide_eq_true hs
  have hkept := hall _ _ _ _ _ _ _ (.of_exec hexec (by decide +kernel)) hphase
  exact hkept.live _ hmem (by decide +kernel)

/-- The loop keeps its lease, so its keys stay registered until an answer reports the lease as
expired, and no longer. -/
theorem kept_alive_iff (parse : Bytes → Option Json) (config : Config.ConfigMap) (P : Provider)
    {as : List Action}
    {s : Session} {leaseId interval : ℤ} (h : Run (step parse config P) Any {} as s)
    (hw : s.phase = .waiting leaseId interval) :
    s.KeptAlive parse leaseId ↔ ∀ asked resp, (.keepAlive asked, resp) ∈ s.exchanges →
    ¬ Expired parse resp := by
  have huses := (oneLease_run h).waiting hw
  constructor
  · intro hkept asked resp hmem
    obtain rfl : asked = leaseId := huses _ hmem
    exact hkept.live resp hmem
  · intro hlive
    refine ⟨fun resp => hlive leaseId resp, fun r resp hmem hput => ?_⟩
    exact ⟨r, resp, hmem, hput, rfl, (huses _ hmem).1⟩

theorem kept_alive_sample : ∃ s, exec (step sampleParse [] sampleProvider) {}
    (registration ++ [.answer renewedText, .answer [], .answer (text "busy")]) = some s ∧
    s.KeptAlive sampleParse 7 := by
  obtain ⟨s, hexec, hs⟩ := exec_any (show (exec (step sampleParse [] sampleProvider) {}
    (registration ++ [.answer renewedText, .answer [], .answer (text "busy")])).any (fun s =>
      decide (s.phase = .waiting 7 3 ∧ ∀ e ∈ s.exchanges, ¬ Expired sampleParse e.2)) = true by
        decide +kernel)
  obtain ⟨hphase, hlive⟩ := of_decide_eq_true hs
  refine ⟨s, hexec,
    (kept_alive_iff sampleParse [] sampleProvider (.of_exec hexec (by decide +kernel)) hphase).mpr
      ?_⟩
  exact fun asked resp hmem => hlive _ hmem

end KimRpc.Discovery.KeepAlive
