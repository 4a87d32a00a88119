import KimRpc.Server.SocketStreams

/-! The muduo server. Each connection has its own input buffer and is read by one loop, while
the closures of the services run in any order, on any thread and at any time. Of muduo it is
taken that it calls `onMessage` of a connection from one loop, and that it writes what is passed
to `send` in whole pieces, each at most once, in any order and at any time, or never. -/

namespace KimRpc.Server

open Library.Runs Library.StreamDecoding Wire

/-- What `done` brings back, and the place of its request among those of the connection. -/
structure ResponseTag where
  conn : ℕ
  requestId : UInt64
  request : Request
  place : ℕ
  deriving DecidableEq

/-- A connection with its input buffer and whether its loop is in `onMessage`. What it received,
dispatched, passed to `send` and wrote is kept beside. -/
structure TcpConnection where
  buffer : Bytes := []
  inMessage : Bool := false
  shut : Bool := false
  received : Bytes := []
  requests : List Request := []
  unwritten : List (ResponseTag × Bytes) := []
  output : List (ResponseTag × Bytes) := []

namespace TcpConnection

variable (conn : TcpConnection)

def sent : Bytes := (conn.output.map Prod.snd).flatten

def passed : List (ResponseTag × Bytes) := conn.output ++ conn.unwritten

def shutdown : TcpConnection := { conn with shut := true }

def send (tag : ResponseTag) (sendBuf : Bytes) : TcpConnection :=
  { conn with unwritten := conn.unwritten ++ [(tag, sendBuf)] }

def write (i : ℕ) : TcpConnection :=
  { conn with
    unwritten := conn.unwritten.eraseIdx i, output := conn.output ++ conn.unwritten[i]?.toList }

end TcpConnection

structure RpcProvider where
  conns : ℕ → TcpConnection := fun _ => {}
  accepts : ℕ := 0
  tags : List ResponseTag := []
  finished : List (ResponseTag × Option Bytes) := []

namespace RpcProvider

inductive Action where
  | connected
  | message (k : ℕ) (data : Bytes)
  | turn (k : ℕ)
  | done (i : ℕ) (responseStr : Option Bytes)
  | write (k i : ℕ)
  | disconnected (k : ℕ)
  deriving DecidableEq

variable (D : Decoding) (s : RpcProvider)

def setConn (k : ℕ) (conn : TcpConnection) : RpcProvider :=
  { s with conns := Function.update s.conns k conn }

def message (k : ℕ) (data : Bytes) : RpcProvider :=
  s.setConn k { s.conns k with
    buffer := (s.conns k).buffer ++ data
    received := (s.conns k).received ++ data
    inMessage := true }

def tagsOf (k : ℕ) (out : List Request) : List ResponseTag :=
  out.mapIdx (fun i r => ⟨k, r.requestId, r, (s.conns k).requests.length + i⟩)

def turn (k : ℕ) : RpcProvider :=
  match D.onMessage (s.conns k).buffer with
  | .wait => s.setConn k { s.conns k with inMessage := false }
  | .stop => s.setConn k ({ s.conns k with inMessage := false } : TcpConnection).shutdown
  | .emit out rest =>
    { s.setConn k { s.conns k with buffer := rest, requests := (s.conns k).requests ++ out } with
      tags := s.tags ++ s.tagsOf k out }

def done (i : ℕ) (responseStr : Option Bytes) : RpcProvider :=
  match s.tags[i]? with
  | none => s
  | some tag =>
    let conn := s.conns tag.conn
    let frame := sendRpcResponse tag.requestId responseStr
    { s.setConn tag.conn ((frame.map (conn.send tag)).getD conn) with
      tags := s.tags.eraseIdx i
      finished := s.finished ++ [(tag, responseStr)] }

def Enabled : Action → Prop
  | .connected => True
  | .message k data => k < s.accepts ∧ data ≠ [] ∧ (s.conns k).inMessage = false
  | .turn k => (s.conns k).inMessage = true
  | .done i _ => i < s.tags.length
  | .write k i => i < (s.conns k).unwritten.length
  | .disconnected k => k < s.accepts ∧ (s.conns k).inMessage = false

instance Enabled.decidable : ∀ a, Decidable (s.Enabled a)
  | .connected => .isTrue trivial
  | .message _ _ | .disconnected _ => inferInstanceAs (Decidable (_ ∧ _))
  | .turn _ => inferInstanceAs (Decidable (_ = _))
  | .done _ _ | .write _ _ => inferInstanceAs (Decidable (_ < _))

def effect : Action → RpcProvider
  | .connected => { s with accepts := s.accepts + 1 }
  | .message k data => s.message k data
  | .turn k => s.turn D k
  | .done i responseStr => s.done i responseStr
  | .write k i => s.setConn k ((s.conns k).write i)
  -- `onConnection` shuts down a connection that is no longer one
  | .disconnected k => s.setConn k (s.conns k).shutdown

def step (a : Action) : Option RpcProvider := if s.Enabled a then some (s.effect D a) else none

def Upholds (service : Request → Bytes → Prop) (s : RpcProvider) : Action → Prop
  | .done i (some body) => ∀ tag ∈ s.tags[i]?, service tag.request body
  | _ => True

instance Upholds.decidable (service : Request → Bytes → Prop)
    [∀ r body, Decidable (service r body)] :
    ∀ a, Decidable (Upholds service s a)
  | .done _ (some _) => inferInstanceAs (Decidable (∀ _ ∈ _, _))
  | .done _ none | .connected | .message _ _ | .turn _ | .write _ _ | .disconnected _ =>
    .isTrue trivial

def issued (k : ℕ) : List ResponseTag :=
  (s.finished.map Prod.fst ++ s.tags).filter (fun tag => tag.conn = k)

end RpcProvider

structure TcpConnection.Reads (D : Decoding) (conn : TcpConnection) : Prop where
  whole : D.muduoDecoder.drain conn.received =
    (conn.requests ++ (D.muduoDecoder.drain conn.buffer).1, (D.muduoDecoder.drain conn.buffer).2)
  idle : conn.inMessage = false → (D.muduoDecoder.drain conn.buffer).1 = []

namespace RpcProvider

variable (D : Decoding) (service : Request → Bytes → Prop) (s : RpcProvider)

def Backed (k : ℕ) (x : ResponseTag × Bytes) : Prop :=
  x.1 ∈ s.finished.map Prod.fst ∧ x.1.conn = k ∧
    ∃ body, x.2 = responseFrame x.1.requestId body ∧ service x.1.request body

structure Sound : Prop where
  unborn : ∀ k, s.accepts ≤ k → s.conns k = {}
  reads : ∀ k, (s.conns k).Reads D
  places : ∀ k, ((s.issued k).map ResponseTag.place).Perm (List.range (s.conns k).requests.length)
  named : ∀ tag ∈ s.finished.map Prod.fst ++ s.tags,
    (s.conns tag.conn).requests[tag.place]? = some tag.request ∧
    tag.requestId = tag.request.requestId
  once : ∀ k, ((s.conns k).passed.map (fun x => x.1.place)).Nodup
  backed : ∀ k, ∀ x ∈ (s.conns k).passed, s.Backed service k x
  kept : ∀ x ∈ s.finished, ∀ body ∈ x.2,
    (x.1, responseFrame x.1.requestId body) ∈ (s.conns x.1.conn).passed

section steps

variable {D service s} {k i : ℕ} {conn : TcpConnection} {t : RpcProvider} {a : Action}

lemma step_cases (h : s.step D a = some t) : s.Enabled a ∧ t = s.effect D a := by
  simp only [step, Option.ite_none_right_eq_some, Option.some.injEq] at h
  exact ⟨h.1, h.2.symm⟩

lemma conns_setConn (j : ℕ) : (s.setConn k conn).conns j = if j = k then conn else s.conns j := by
  show Function.update s.conns k conn j = _
  rw [Function.update_apply]

lemma Sound.setConn (h : s.Sound D service) (hlt : k < s.accepts) (hreads : conn.Reads D)
    (hrequests : conn.requests = (s.conns k).requests)
    (hpassed : conn.passed.Perm (s.conns k).passed) :
    (s.setConn k conn).Sound D service := by
  have hrest : ∀ j, ((s.setConn k conn).conns j).requests = (s.conns j).requests ∧
      ((s.setConn k conn).conns j).passed.Perm (s.conns j).passed := by
    intro j
    rw [conns_setConn]
    split_ifs with hj
    · exact hj ▸ ⟨hrequests, hpassed⟩
    · exact ⟨rfl, List.Perm.refl _⟩
  refine ⟨fun j hj => ?_, fun j => ?_, fun j => ?_, fun tag htag => ?_, fun j => ?_,
    fun j x hx => ?_,
    fun x hx body hbody => ?_⟩
  · have hne : j ≠ k := by
      rintro rfl
      exact absurd hlt (not_lt.mpr hj)
    rw [conns_setConn, if_neg hne]
    exact h.unborn j hj
  · rw [conns_setConn]
    split_ifs
    · exact hreads
    · exact h.reads j
  · rw [(hrest j).1]
    exact h.places j
  · rw [(hrest tag.conn).1]
    exact h.named tag htag
  · exact ((hrest j).2.map _).nodup_iff.mpr (h.once j)
  · exact h.backed j x ((hrest j).2.subset hx)
  · exact (hrest x.1.conn).2.mem_iff.mpr (h.kept x hx body hbody)

lemma Sound.message (h : s.Sound D service) {data : Bytes} (hlt : k < s.accepts) :
    (s.message k data).Sound D service := by
  refine h.setConn hlt ⟨?_, fun hidle => by simp at hidle⟩ rfl (List.Perm.refl _)
  exact D.muduoDecoder.drain_onward (h.reads k).whole data

lemma Sound.shutdown (h : s.Sound D service) (hlt : k < s.accepts) :
    (s.setConn k (s.conns k).shutdown).Sound D service :=
  h.setConn hlt ⟨(h.reads k).whole, (h.reads k).idle⟩ rfl (List.Perm.refl _)

lemma Sound.write (h : s.Sound D service) (hi : i < (s.conns k).unwritten.length) :
    (s.setConn k ((s.conns k).write i)).Sound D service := by
  have hlt : k < s.accepts := by
    by_contra hnot
    rw [h.unborn k (not_lt.mp hnot)] at hi
    exact absurd hi (Nat.not_lt_zero i)
  refine h.setConn hlt ⟨(h.reads k).whole, (h.reads k).idle⟩ rfl ?_
  simp only [TcpConnection.passed, TcpConnection.write, List.getElem?_eq_getElem hi,
    Option.toList_some,
    List.append_assoc, List.singleton_append]
  exact (List.getElem_cons_eraseIdx_perm hi).append_left _

lemma tagsOf_issued (out : List Request) (j : ℕ) :
    (s.tagsOf k out).filter (fun tag => tag.conn = j) = if j = k then s.tagsOf k out else [] := by
  have hall : ∀ tag ∈ s.tagsOf k out, tag.conn = k := by
    intro tag htag
    obtain ⟨i, hi, rfl⟩ := List.mem_mapIdx.mp htag
    rfl
  split_ifs with hj
  · exact List.filter_eq_self.mpr (fun tag htag => by simp [hall tag htag, hj])
  · exact List.filter_eq_nil_iff.mpr (fun tag htag => by simpa [hall tag htag] using Ne.symm hj)

lemma tagsOf_places (out : List Request) :
    (s.tagsOf k out).map ResponseTag.place = (List.range out.length).map
    (fun i => (s.conns k).requests.length + i) := by
  rw [tagsOf, List.mapIdx_eq_zipIdx_map, List.map_map]
  refine List.ext_getElem (by simp) (fun i _ _ => ?_)
  simp

lemma Sound.dispatch (h : s.Sound D service) (hlt : k < s.accepts) {out : List Request}
    {rest : Bytes}
    (hbusy : (s.conns k).inMessage = true)
    (hemit : D.onMessage (s.conns k).buffer = .emit out rest) :
    ({ s.setConn k { s.conns k with buffer := rest, requests := (s.conns k).requests ++ out } with
      tags := s.tags ++ s.tagsOf k out } : RpcProvider).Sound D service := by
  have hconn :
      ∀ j, (s.setConn k { s.conns k with
        buffer := rest, requests := (s.conns k).requests ++ out }).conns j =
      { s.conns j with
        buffer := if j = k then rest else (s.conns j).buffer
        requests := (s.conns j).requests ++ if j = k then out else [] } := by
    intro j
    rw [conns_setConn]
    split_ifs with hj
    · rw [hj]
    · rw [List.append_nil]
  refine ⟨fun j hj => ?_, fun j => ?_, fun j => ?_, fun tag htag => ?_, fun j => ?_,
    fun j x hx => ?_,
    fun x hx body hbody => ?_⟩
  · have hne : j ≠ k := by
      rintro rfl
      exact absurd hlt (not_lt.mpr hj)
    rw [conns_setConn, if_neg hne]
    exact h.unborn j hj
  · rw [conns_setConn]
    split_ifs with hj
    · refine ⟨?_, fun hidle => by simp [hbusy] at hidle⟩
      have hwhole := (h.reads k).whole
      rw [D.muduoDecoder.drain_emit hemit, ← List.append_assoc] at hwhole
      exact hwhole
    · exact h.reads j
  · show (((s.finished.map Prod.fst ++ (s.tags ++ s.tagsOf k out)).filter _).map _).Perm _
    rw [hconn, ← List.append_assoc, List.filter_append, tagsOf_issued, List.map_append,
      List.length_append]
    split_ifs with hj
    · rw [tagsOf_places, hj, List.range_add]
      exact (h.places k).append_right _
    · simp only [List.map_nil, List.append_nil, List.length_nil, Nat.add_zero]
      exact h.places j
  · rw [hconn]
    have hold : ∀ tag ∈ s.finished.map Prod.fst ++ s.tags,
        ((s.conns tag.conn).requests ++ if tag.conn = k then out else [])[tag.place]? =
          some tag.request ∧
          tag.requestId = tag.request.requestId := by
      intro tag htag
      obtain ⟨hget, hid⟩ := h.named tag htag
      exact ⟨(List.getElem?_append_left (List.getElem?_eq_some_iff.mp hget).1).trans hget, hid⟩
    have hnew : tag ∈ s.finished.map Prod.fst ++ (s.tags ++ s.tagsOf k out) := htag
    rw [← List.append_assoc] at hnew
    rcases List.mem_append.mp hnew with hmem | hmem
    · exact hold tag hmem
    · obtain ⟨i, hi, rfl⟩ := List.mem_mapIdx.mp hmem
      refine ⟨?_, rfl⟩
      simp [hi]
  · rw [hconn]
    exact h.once j
  · rw [hconn] at hx
    exact h.backed j x hx
  · rw [hconn]
    exact h.kept x hx body hbody

lemma Sound.turn (h : s.Sound D service) (hbusy : (s.conns k).inMessage = true) :
    (s.turn D k).Sound D service := by
  have hlt : k < s.accepts := by
    by_contra hnot
    rw [h.unborn k (not_lt.mp hnot)] at hbusy
    cases hbusy
  unfold RpcProvider.turn
  cases hnext : D.onMessage (s.conns k).buffer with
  | wait =>
    refine h.setConn hlt ⟨(h.reads k).whole, fun _ => ?_⟩ rfl (List.Perm.refl _)
    rw [D.muduoDecoder.drain_wait hnext]
  | stop =>
    refine h.setConn hlt ⟨(h.reads k).whole, fun _ => ?_⟩ rfl (List.Perm.refl _)
    change (D.muduoDecoder.drain (s.conns k).buffer).1 = []
    rw [D.muduoDecoder.drain_stop hnext]
  | emit out rest => exact h.dispatch hlt hbusy hnext

lemma Sound.place_fresh (h : s.Sound D service) {tag : ResponseTag} (htag : tag ∈ s.tags) :
    tag.place ∉ (s.conns tag.conn).passed.map (fun x => x.1.place) := by
  intro hmem
  obtain ⟨x, hx, hplace⟩ := List.mem_map.mp hmem
  obtain ⟨hfinished, hconn, -⟩ := h.backed tag.conn x hx
  have hnodup := (h.places tag.conn).nodup_iff.mpr List.nodup_range
  rw [issued, List.filter_append, List.map_append] at hnodup
  refine (List.nodup_append'.mp hnodup).2.2 (?_ : tag.place ∈ _) ?_
  · exact List.mem_map.mpr ⟨x.1, List.mem_filter.mpr ⟨hfinished, by simpa using hconn⟩, hplace⟩
  · exact List.mem_map_of_mem (List.mem_filter.mpr ⟨htag, by simp⟩)

lemma Sound.tag_accepted (h : s.Sound D service) {tag : ResponseTag} (htag : tag ∈ s.tags) :
    tag.conn < s.accepts := by
  by_contra hnot
  have hplace := (h.named tag (List.mem_append_right _ htag)).1
  rw [h.unborn _ (not_lt.mp hnot)] at hplace
  cases hplace

lemma Sound.answered_conn (h : s.Sound D service) (tag : ResponseTag) (responseStr : Option Bytes) :
    ∃ conn, ((sendRpcResponse tag.requestId responseStr).map ((s.conns tag.conn).send tag)).getD
        (s.conns tag.conn) = conn ∧
      conn.requests = (s.conns tag.conn).requests ∧ conn.Reads D ∧
      conn.passed = (s.conns tag.conn).passed ++
        (responseStr.map (fun body => (tag, responseFrame tag.requestId body))).toList := by
  cases responseStr with
  | none => exact ⟨s.conns tag.conn, rfl, rfl, h.reads _, by simp⟩
  | some body =>
    exact ⟨_, rfl, rfl, ⟨(h.reads _).whole, (h.reads _).idle⟩, (List.append_assoc _ _ _).symm⟩

lemma tags_perm {tag : ResponseTag} (hget : s.tags[i]? = some tag) :
    (s.finished.map Prod.fst ++ [tag] ++ s.tags.eraseIdx i).Perm
      (s.finished.map Prod.fst ++ s.tags) := by
  obtain ⟨hi, hat⟩ := List.getElem?_eq_some_iff.mp hget
  have herase := List.getElem_cons_eraseIdx_perm hi
  rw [hat] at herase
  rw [List.append_assoc]
  exact herase.append_left _

lemma Sound.done (h : s.Sound D service) {responseStr : Option Bytes}
    (ha : Upholds service s (.done i responseStr)) : (s.done i responseStr).Sound D service := by
  unfold RpcProvider.done
  cases hget : s.tags[i]? with
  | none => exact h
  | some tag =>
    have htag : tag ∈ s.tags := List.mem_of_getElem? hget
    have hperm := tags_perm hget
    have hlt := h.tag_accepted htag
    obtain ⟨conn, hconn, hrequests, hreads, hpassed⟩ := h.answered_conn tag responseStr
    simp only [hconn]
    have hbacked : ∀ k x, s.Backed service k x → Backed service { s.setConn tag.conn conn with
        tags := s.tags.eraseIdx i, finished := s.finished ++ [(tag, responseStr)] } k x := by
      rintro k x ⟨hfinished, hrest⟩
      exact ⟨by simpa using .inl (by simpa using hfinished), hrest⟩
    have hcases : ∀ j, ((s.setConn tag.conn conn).conns j).requests = (s.conns j).requests := by
      intro j
      rw [conns_setConn]
      split_ifs with hj
      · rw [hrequests, hj]
      · rfl
    refine ⟨fun j hj => ?_, fun j => ?_, fun j => ?_, fun tag' htag' => ?_, fun j => ?_,
      fun j x hx => ?_,
      fun x hx body hbody => ?_⟩
    · have hne : j ≠ tag.conn := by
        rintro rfl
        exact absurd hlt (not_lt.mpr hj)
      rw [conns_setConn, if_neg hne]
      exact h.unborn j hj
    · rw [conns_setConn]
      split_ifs
      · exact hreads
      · exact h.reads j
    · rw [hcases]
      refine List.Perm.trans ?_ (h.places j)
      simp only [issued, List.map_append, List.map_cons, List.map_nil]
      exact (hperm.filter _).map _
    · rw [hcases]
      refine h.named tag' (hperm.subset ?_)
      simpa using htag'
    · rw [conns_setConn]
      split_ifs with hj
      · rw [hpassed, List.map_append]
        refine List.Nodup.append (h.once _) (by cases responseStr <;> simp) ?_
        intro place hplace hnew
        cases responseStr with
        | none => simp at hnew
        | some body =>
          simp only [Option.map_some, Option.toList_some, List.map_cons, List.map_nil,
            List.mem_singleton] at hnew
          exact h.place_fresh htag (hnew ▸ hplace)
      · exact h.once j
    · rw [conns_setConn] at hx
      split_ifs at hx with hj
      · rw [hpassed] at hx
        rcases List.mem_append.mp hx with hold | hnew
        · exact hbacked j x (h.backed j x (hj ▸ hold))
        · cases responseStr with
          | none => simp at hnew
          | some body =>
            cases List.mem_singleton.mp hnew
            exact ⟨by simp, hj.symm, body, rfl, ha tag hget⟩
      · exact hbacked j x (h.backed j x hx)
    · rw [conns_setConn]
      rcases List.mem_append.mp hx with hmem | hnew
      · have hin := h.kept x hmem body hbody
        split_ifs with heq
        · rw [hpassed]
          exact List.mem_append_left _ (heq ▸ hin)
        · exact hin
      · cases List.mem_singleton.mp hnew
        rw [if_pos rfl, hpassed]
        refine List.mem_append_right _ ?_
        simp only [Option.mem_def] at hbody
        simp [hbody]

lemma conns_step (hstep : s.step D a = some t) (j : ℕ) : (s.conns j).output <+: (t.conns j).output ∧
    ((t.conns j).received = (s.conns j).received ∨
      ∃ data, a = .message j data ∧ (t.conns j).received = (s.conns j).received ++ data) := by
  have hset : ∀ (k : ℕ) (conn : TcpConnection), (s.conns k).output <+: conn.output →
      conn.received = (s.conns k).received →
      (s.conns j).output <+: ((s.setConn k conn).conns j).output ∧
        ((s.setConn k conn).conns j).received = (s.conns j).received := by
    intro k conn houtput hreceived
    rw [conns_setConn]
    split_ifs with hj
    · exact hj ▸ ⟨houtput, hreceived⟩
    · exact ⟨List.prefix_rfl, rfl⟩
  obtain ⟨hen, rfl⟩ := step_cases hstep
  cases a with
  | connected => exact ⟨List.prefix_rfl, .inl rfl⟩
  | message k data =>
    simp only [effect, RpcProvider.message, conns_setConn]
    split_ifs with hj
    · exact ⟨hj ▸ List.prefix_rfl, .inr ⟨data, by rw [hj], by rw [hj]⟩⟩
    · exact ⟨List.prefix_rfl, .inl rfl⟩
  | turn k =>
    simp only [effect, RpcProvider.turn]
    cases D.onMessage (s.conns k).buffer with
    | wait =>
      exact (hset k { s.conns k with inMessage := false } List.prefix_rfl rfl).imp_right .inl
    | stop =>
      exact (hset k { s.conns k with
        inMessage := false, shut := true } List.prefix_rfl rfl).imp_right .inl
    | emit out rest =>
      exact (hset k { s.conns k with
        buffer := rest, requests := (s.conns k).requests ++ out } List.prefix_rfl
        rfl).imp_right .inl
  | done i responseStr =>
    simp only [effect, RpcProvider.done]
    cases s.tags[i]? with
    | none => exact ⟨List.prefix_rfl, .inl rfl⟩
    | some tag =>
      refine (hset tag.conn _ ?_ ?_).imp_right .inl
      all_goals cases responseStr <;> rfl
  | write k i => exact (hset k ((s.conns k).write i) (List.prefix_append _ _) rfl).imp_right .inl
  | disconnected k => exact (hset k (s.conns k).shutdown List.prefix_rfl rfl).imp_right .inl

lemma accepts_step (hstep : s.step D a = some t) :
    t.accepts = s.accepts + if a = .connected then 1 else 0 := by
  obtain ⟨hen, rfl⟩ := step_cases hstep
  cases a with
  | turn k =>
    simp only [effect, RpcProvider.turn]
    cases D.onMessage (s.conns k).buffer <;> rfl
  | done i responseStr =>
    simp only [effect, RpcProvider.done]
    cases s.tags[i]? <;> rfl
  | _ => rfl

lemma Sound.step (h : s.Sound D service) (ha : Upholds service s a) (hstep : s.step D a = some t) :
    t.Sound D service := by
  obtain ⟨hen, rfl⟩ := step_cases hstep
  cases a with
  | connected => exact { h with unborn := fun k hk => h.unborn k (Nat.le_of_succ_le hk) }
  | message k data => exact h.message hen.1
  | turn k => exact h.turn hen
  | done i responseStr => exact h.done ha
  | write k i => exact h.write hen
  | disconnected k => exact h.shutdown hen.1

lemma sound_start : ({} : RpcProvider).Sound D service := by
  refine ⟨fun _ _ => rfl, fun k => ⟨?_, fun _ => ?_⟩, fun k => ?_, nofun, fun k => ?_, nofun, nofun⟩
  · simp
  · simp
  · simp [issued]
  · exact List.nodup_nil

variable {as : List Action}

lemma sound_run (h : Run (RpcProvider.step D) (Upholds service) {} as s) : s.Sound D service :=
  h.invariant sound_start (fun _ _ _ hu ha hs => hu.step ha hs)

lemma Sound.requests_drained (h : s.Sound D service) (k : ℕ) :
    (s.conns k).requests <+: (D.muduoDecoder.drain (s.conns k).received).1 := by
  rw [(h.reads k).whole]
  exact List.prefix_append _ _

lemma Sound.serves (h : s.Sound D service) (k : ℕ) :
    Serves service (s.conns k).requests (s.conns k).sent := by
  have hbacked : ∀ x ∈ (s.conns k).output, ∃ body, x.2 = responseFrame x.1.requestId body ∧
      service x.1.request body ∧
      (s.conns k).requests[x.1.place]? = some x.1.request ∧
      x.1.requestId = x.1.request.requestId := by
    intro x hx
    obtain ⟨hfinished, hconn, body, hbody, hservice⟩ := h.backed k x (List.mem_append_left _ hx)
    have hnamed := h.named x.1 (List.mem_append_left _ hfinished)
    rw [hconn] at hnamed
    exact ⟨body, hbody, hservice, hnamed⟩
  choose! body hbody using hbacked
  refine ⟨(s.conns k).output.map (fun x => (x.1.place, x.1.request, body x)), ?_, ?_,
    fun r hr => ?_⟩
  · have honce := h.once k
    rw [TcpConnection.passed, List.map_append] at honce
    rw [List.map_map]
    exact (List.nodup_append'.mp honce).1
  · have hframes : (s.conns k).output.map Prod.snd =
        (s.conns k).output.map (fun x => responseFrame x.1.request.requestId (body x)) := by
      refine List.map_congr_left (fun x hx => ?_)
      obtain ⟨heq, -, -, hid⟩ := hbody x hx
      rw [heq, hid]
    rw [List.flatMap_map, TcpConnection.sent, List.flatMap_def, hframes]
  · obtain ⟨x, hx, rfl⟩ := List.mem_map.mp hr
    obtain ⟨-, hservice, hget, -⟩ := hbody x hx
    exact ⟨hget, hservice⟩

/-- Each request is read once, whatever pieces it comes in, and answered at most once, by a whole
response to the connection it came from. No response of a closure goes anywhere else or is lost
before it is passed to `send`. -/
theorem streams_served (D : Decoding) (service : Request → Bytes → Prop) {as : List Action}
    (h : Run (step D) (Upholds service) {} as s) (k : ℕ) :
    Serves service (D.muduoDecoder.drain (s.conns k).received).1 (s.conns k).sent ∧
      ((s.conns k).inMessage = false →
        (s.conns k).requests = (D.muduoDecoder.drain (s.conns k).received).1) ∧
      ((s.issued k).map ResponseTag.place).Perm (List.range (s.conns k).requests.length) ∧
      ∀ x ∈ s.finished, x.1.conn = k → ∀ body ∈ x.2,
        (x.1, responseFrame x.1.requestId body) ∈ (s.conns k).output ++ (s.conns k).unwritten := by
  have hs := sound_run h
  refine ⟨(hs.serves k).mono (hs.requests_drained k), fun hidle => ?_, hs.places k, ?_⟩
  · rw [(hs.reads k).whole, (hs.reads k).idle hidle, List.append_nil]
  · rintro x hx rfl
    exact hs.kept x hx

def sampleActions : List Action :=
  [.connected, .message 0 [10, 0, 0, 0, 10, 1, 85, 18, 1, 76], .turn 0,
    .message 0 ([24, 3, 32, 1, 10, 1, 97, 8, 0, 0, 0, 10, 1, 85, 18, 1, 76, 32, 2] ++
      [8, 0, 0, 0, 10, 1, 85, 18, 1, 76, 32, 3]),
    .turn 0, .turn 0, .turn 0, .turn 0, .done 1 none, .done 0 (some [8, 1]), .done 0 (some [8, 3]),
    .write 0 1,
    .write 0 0]

theorem streams_served_sample : ∃ s, exec (step Reactor.sampleDecoding) {} sampleActions = some s ∧
    (s.conns 0).sent = responseFrame 3 [8, 3] ++ responseFrame 1 [8, 1] ∧
    Serves Reactor.sampleService (Reactor.sampleDecoding.muduoDecoder.drain (s.conns 0).received).1
      (s.conns 0).sent := by
  obtain ⟨s, hs, hd⟩ : ∃ s, exec (step Reactor.sampleDecoding) {} sampleActions = some s ∧
      decide ((s.conns 0).sent = responseFrame 3 [8, 3] ++ responseFrame 1 [8, 1]) = true :=
        exec_any (by decide)
  exact ⟨s, hs, of_decide_eq_true hd,
    (streams_served Reactor.sampleDecoding Reactor.sampleService (.of_exec hs (by decide)) 0).1⟩

end steps

end RpcProvider

end KimRpc.Server
