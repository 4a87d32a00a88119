import KimRpc.Server.ResponseMatching
import KimRpc.Server.StreamDispatch

/-! What goes out on an accepted socket. It is the responses to requests that came in on the
same socket, each at most once and in any order, and the last one may be cut off. -/

namespace KimRpc.Server

open Library.Runs Wire

/-- The stream consists of responses to distinct requests of the list, as the service may give them.
-/
def Serves (service : Request → Bytes → Prop) (requests : List Request) (stream : Bytes) : Prop :=
  ∃ replies : List (ℕ × Request × Bytes), (replies.map Prod.fst).Nodup ∧
    stream <+: replies.flatMap (fun r => responseFrame r.2.1.requestId r.2.2) ∧
    ∀ r ∈ replies, requests[r.1]? = some r.2.1 ∧ service r.2.1 r.2.2

section serves

variable {service : Request → Bytes → Prop} {requests requests' : List Request} {stream : Bytes}

lemma Serves.mono (h : Serves service requests stream) (hpre : requests <+: requests') :
    Serves service requests' stream := by
  obtain ⟨replies, hnodup, hstream, hreplies⟩ := h
  refine ⟨replies, hnodup, hstream, fun r hr => ?_⟩
  obtain ⟨hget, hservice⟩ := hreplies r hr
  obtain ⟨rest, rfl⟩ := hpre
  have hlt := (List.getElem?_eq_some_iff.mp hget).1
  exact ⟨(List.getElem?_append_left hlt).trans hget, hservice⟩

lemma serves_nil : Serves service requests [] := ⟨[], List.nodup_nil, List.nil_prefix, nofun⟩

end serves

namespace Reactor

variable (D : Decoding) (service : Request → Bytes → Prop) (s t : Reactor) (a : Action)
    (g g' : Journal)
  (w w' : ℕ → Bytes) (c : Coro) (p : ℕ)

def Upholds (s : Reactor) : Action → Prop
  | .workerDone i (some body) => ∀ task ∈ s.tasks[i]?, service task.request body
  | _ => True

instance Upholds.decidable [∀ r body, Decidable (service r body)] (s : Reactor) :
    ∀ a, Decidable (s.Upholds service a)
  | .workerDone _ (some _) => inferInstanceAs (Decidable (∀ _ ∈ _, _))
  | .workerDone _ none | .enter _ | .interrupted | .wake | .handle | .loop | .acceptDone _ _ |
      .recvDone _ _
  | .sendDone _ _ | .notifyDone _ | .opFail _ _ | .eventfdWrite => .isTrue trivial

def Backed : Prop :=
  ∃ ctx task body, (ctx, task) ∈ g.dispatches ∧ task.serial = c.serial ∧ ctx.connId = c.connId ∧
    service task.request body ∧ c.frame = responseFrame task.request.requestId body

structure Provided : Prop where
  origins : ∀ ctx task, (ctx, task) ∈ g.dispatches → task.connId = ctx.connId
  tasks : ∀ task ∈ s.tasks, ∃ ctx, (ctx, task) ∈ g.dispatches
  coros : ∀ c ∈ s.readyCoros, c.frame ≠ [] → Backed service g c
  delivered : ∀ p, ∀ c ∈ g.delivered p, c.connId = (s.ctx p).connId ∧ Backed service g c
  order : ∀ p, (g.delivered p).Sublist (g.resumptions.map Prod.snd)

def Linked : Prop :=
  ∀ ctx task, (ctx, task) ∈ g.dispatches → ctx.connId ∈ s.acquired ∧
    ∀ p < s.mgr.allConns, (s.ctx p).connId = ctx.connId → (s.ctx p).socket = ctx.socket

variable {D service s t a g g' w w' c p}

lemma Backed.mono (h : Backed service g c) (hd : ∀ d ∈ g.dispatches, d ∈ g'.dispatches) :
    Backed service g' c := by
  obtain ⟨ctx, task, body, hmem, hrest⟩ := h
  exact ⟨ctx, task, body, hd _ hmem, hrest⟩

lemma Provided.kept (h : Provided service s g) (hd : g'.dispatches = g.dispatches)
    (hr : g'.resumptions = g.resumptions)
    (hp : ∀ q, g'.delivered q = g.delivered q ∧ (t.ctx q).connId = (s.ctx q).connId ∨
      g'.delivered q = [])
    (htasks : ∀ task ∈ t.tasks, task ∈ s.tasks) (hcoros : ∀ c ∈ t.readyCoros, c ∈ s.readyCoros) :
    Provided service t g' where
  origins := by
    rw [hd]
    exact h.origins
  tasks task htask := by
    rw [hd]
    exact h.tasks task (htasks task htask)
  coros c hc hframe := (h.coros c (hcoros c hc) hframe).mono (fun _ hmem => hd ▸ hmem)
  delivered q c hc := by
    rcases hp q with ⟨hsame, hid⟩ | hnone
    · rw [hsame] at hc
      obtain ⟨heq, hbacked⟩ := h.delivered q c hc
      exact ⟨heq.trans hid.symm, hbacked.mono (fun _ hmem => hd ▸ hmem)⟩
    · rw [hnone] at hc
      cases hc
  order q := by
    rw [hr]
    rcases hp q with ⟨hsame, _⟩ | hnone
    · rw [hsame]
      exact h.order q
    · rw [hnone]
      exact List.nil_sublist _

lemma Provided.read {requests : List Request} {ctx : ConnectionContext} (h : Provided service s g)
    (hid : ctx.connId = (s.ctx p).connId) (htasks : t.tasks = (s.dispatch p requests).tasks)
    (hconn : ∀ q, (t.ctx q).connId = (s.ctx q).connId) (hcoros : t.readyCoros = s.readyCoros) :
    Provided service t (g.dispatch ctx (t.tasks.drop s.tasks.length)) := by
  have hnew : t.tasks.drop s.tasks.length = requests.mapIdx
      (fun i r => ⟨(s.ctx p).fd, (s.ctx p).connId, r, s.dispatched + i⟩) := by
    rw [htasks, dispatch, List.drop_left]
  have hold : ∀ d ∈ g.dispatches, d ∈ (g.dispatch ctx (t.tasks.drop s.tasks.length)).dispatches :=
    fun _ hmem => List.mem_append_left _ hmem
  refine ⟨fun ctx' task hmem => ?_, fun task htask => ?_, fun c hc hframe => ?_,
    fun q c hc => ?_, h.order⟩
  · rcases List.mem_append.mp hmem with hmem | hadded
    · exact h.origins ctx' task hmem
    · rw [hnew] at hadded
      obtain ⟨task', htask', heq⟩ := List.mem_map.mp hadded
      cases heq
      obtain ⟨i, hi, rfl⟩ := List.mem_mapIdx.mp htask'
      exact hid.symm
  · rw [htasks] at htask
    rcases List.mem_append.mp htask with hmem | hadded
    · obtain ⟨ctx', hmem⟩ := h.tasks task hmem
      exact ⟨ctx', hold _ hmem⟩
    · refine ⟨ctx, List.mem_append_right _ (List.mem_map.mpr ⟨task, ?_, rfl⟩)⟩
      rw [hnew]
      exact hadded
  · rw [hcoros] at hc
    exact (h.coros c hc hframe).mono hold
  · obtain ⟨heq, hbacked⟩ := h.delivered q c hc
    exact ⟨heq.trans (hconn q).symm, hbacked.mono hold⟩

lemma Provided.notified {rest : List Cqe} (h : Provided service s g)
    (hs : ({ s with cq := rest, readyCoros := [] } : Reactor).view.Sound)
    (htasks : t.tasks = s.tasks)
    (hconn : ∀ q, (t.ctx q).connId = (s.ctx q).connId) (hcoros : t.readyCoros = []) :
    Provided service t
      (g.resume (({ s with cq := rest, readyCoros := [] } : Reactor).resumptions s.readyCoros))
        where
  origins := h.origins
  tasks := by
    rw [htasks]
    exact h.tasks
  coros := by
    rw [hcoros]
    exact fun _ hc => by cases hc
  delivered q c hc := by
    rcases List.mem_append.mp hc with hold | hnew
    · obtain ⟨heq, hbacked⟩ := h.delivered q c hold
      exact ⟨heq.trans (hconn q).symm, hbacked⟩
    · obtain ⟨⟨u, c'⟩, hmem, rfl⟩ := List.mem_map.mp hnew
      rw [List.mem_filter, decide_eq_true_eq] at hmem
      obtain ⟨hmem, htarget⟩ := hmem
      obtain ⟨hu, _, hready⟩ := mem_resumptions hs hmem
      obtain ⟨hframe, _, hid⟩ := target_find htarget
      refine ⟨?_, h.coros c' hready hframe⟩
      rw [hconn, ← hid, hu.connId]
      rfl
  order q := by
    have hpushed :
        (Journal.pushed q
          (({ s with cq := rest, readyCoros := [] } : Reactor).resumptions s.readyCoros)).Sublist
        ((({ s with cq := rest, readyCoros := [] } : Reactor).resumptions s.readyCoros).map
          Prod.snd) :=
      List.filter_sublist.map Prod.snd
    simp only [Journal.resume, List.map_append]
    exact (h.order q).append hpushed

lemma Provided.workerDone {i : ℕ} {responseStr : Option Bytes} (h : Provided service s g)
    (ha : s.Upholds service (.workerDone i responseStr)) :
    Provided service (s.workerDone i responseStr) g := by
  cases hi : s.tasks[i]? with
  | none =>
    simp only [Reactor.workerDone, hi]
    exact h
  | some task =>
    rw [workerDone_eq responseStr hi]
    refine ⟨h.origins, fun task' htask' => h.tasks task' (List.mem_of_mem_eraseIdx htask'),
      fun c hc hframe => ?_,
      h.delivered, h.order⟩
    rcases List.mem_append.mp hc with hold | hnew
    · exact h.coros c hold hframe
    · rw [List.mem_singleton.mp hnew] at hframe ⊢
      obtain ⟨ctx, hmem⟩ := h.tasks task (List.mem_of_getElem? hi)
      cases responseStr with
      | none => exact absurd rfl hframe
      | some body =>
        exact ⟨ctx, task, body, hmem, rfl, (h.origins ctx task hmem).symm, ha task hi, rfl⟩

lemma Provided.change (h : Provided service s g) (hs : s.view.Sound) (ha : s.Upholds service a)
    (hc : Change D s t a g g') : Provided service t g' := by
  cases hc with
  | steady hst hd hr hp =>
    refine h.kept hd hr (fun q => .inl ⟨by rw [hp], hst.connId q⟩) ?_ ?_
    · rw [hst.tasks]
      exact fun _ h => h
    · rw [hst.readyCoros]
      exact fun _ h => h
  | accepted e _ _ _ _ hst hg =>
    rw [hg]
    refine h.kept rfl rfl (fun q => ?_) ?_ ?_
    · simp only [Journal.opened, Function.update_apply]
      split_ifs with hq
      · exact .inr rfl
      · exact .inl ⟨rfl, by rw [hst.connId, ctx_acquire_ne hq]⟩
    · rw [hst.tasks]
      exact fun _ h => h
    · rw [hst.readyCoros]
      exact fun _ h => h
  | read e p c _ _ _ hst hmapped hid hg =>
    rw [hg]
    exact h.read hid hst.tasks (fun q => (hst.connId q).trans (names_dispatch _ q).2) hst.readyCoros
  | notified e rest _ hcq hop hst hg =>
    rw [hg]
    have hsound : ({ s with cq := rest, readyCoros := [] } : Reactor).view.Sound :=
      sound_pop_none hcq hs (ctx_of_notify hs hcq hop)
    have hfold := parallel_foldl (s := { s with cq := rest, readyCoros := [] }) s.readyCoros
    exact h.notified hsound (hst.tasks.trans hfold.tasks)
      (fun q => (hst.connId q).trans (hfold.connId q))
      (hst.readyCoros.trans hfold.readyCoros)
  | answered i responseStr ha' ht hg =>
    rw [ht, hg]
    rw [ha'] at ha
    exact h.workerDone ha
  | sent p n hst _ _ _ hg =>
    rw [hg]
    refine h.kept rfl rfl (fun q => .inl ⟨rfl, (hst.connId q).trans (names_advance _ q).2⟩) ?_ ?_
    · rw [hst.tasks]
      exact fun _ h => h
    · rw [hst.readyCoros]
      exact fun _ h => h

section linked

lemma Linked.kept (h : Linked s g) (hd : g'.dispatches = g.dispatches)
    (hids : t.acquired = s.acquired)
    (hall : t.mgr.allConns = s.mgr.allConns)
    (hctx : ∀ q, (t.ctx q).connId = (s.ctx q).connId ∧ (t.ctx q).socket = (s.ctx q).socket) :
    Linked t g' := by
  intro ctx task hmem
  rw [hd] at hmem
  obtain ⟨hid, hsocket⟩ := h ctx task hmem
  refine ⟨hids ▸ hid, fun p hp heq => ?_⟩
  rw [(hctx p).1] at heq
  rw [(hctx p).2]
  exact hsocket p (hall ▸ hp) heq

lemma Linked.quiet (h : Linked s g) (hq : Quiet s t) (hd : g'.dispatches = g.dispatches) :
    Linked t g' :=
  h.kept hd hq.acquired hq.allConns (fun q => ⟨hq.connId q, hq.socket q⟩)

lemma Linked.acquire {fd : ℕ} (h : Linked s g) (hs : s.view.Sound) (hi : Issued s.mgr s.acquired)
    (hlt : s.acquired.length < 2 ^ 64) : Linked (s.acquire fd) g := by
  intro ctx task hmem
  obtain ⟨hid, hsocket⟩ := h ctx task hmem
  refine ⟨List.mem_append_left _ hid, fun p hp heq => ?_⟩
  have hv : s.view.Vacant s.mgr.idle.1 s.mgr.idle.2 := hs.vacant
  rw [acquire_allConns] at hp
  by_cases hnew : p = s.mgr.idle.1
  · rw [hnew, acquire_ctx] at heq
    have hnext : s.mgr.nextId = ctx.connId := heq
    exact absurd (hnext ▸ hid) (hi.fresh hlt)
  · rw [acquire_ctx_ne fd hnew] at heq ⊢
    exact hsocket p (hv.old p hnew hp) heq

variable {e : Cqe} {rest : List Cqe}

lemma Linked.handle (h : Linked s g) (hs : s.view.Sound) (hi : Issued s.mgr s.acquired)
    (hlt : s.acquired.length < 2 ^ 64) (hcq : s.cq = e :: rest)
    (ht : t = ({ s with cq := rest } : Reactor).handleCqe D e)
    (hg : g' = noteTurn { s with cq := rest } t g e) :
    Linked t g' := by
  have hread := reads_handleCqe (D := D) hs hcq
  rw [← ht] at hread
  have hpopped : Linked { s with cq := rest } g := h
  cases hread with
  | accepted hop hresult hquiet hidle =>
    have hacquired : Linked (s.acquire e.result.toNat) g := h.acquire hs hi hlt
    have hlinked : Linked (({ s with cq := rest } : Reactor).acquire e.result.toNat) g := hacquired
    refine hlinked.quiet hquiet ?_
    rw [hg]
    simp only [noteTurn, hop, hresult, ↓reduceIte]
    rfl
  | nothing harrival hquiet hidle =>
    refine hpopped.quiet hquiet ?_
    rw [hg]
    exact noteTurn_dispatches hidle.tasks
  | read p hop hctx hfed hquiet hopen hothers hown htasks =>
    have hmem : e ∈ s.cq := by simp [hcq]
    have htag := cqe_tag hmem
    rw [hctx] at htag
    have hbusy := (tag_busy hs htag).1
    obtain ⟨_, _, hall⟩ := copyOut_rest (s := { s with cq := rest }) (p := p) e
    have hconn : ∀ q, (t.ctx q).connId = (s.ctx q).connId :=
      fun q => (hquiet.connId q).trans ((calm_copyOut e).connId q)
    have hsocket : ∀ q, (t.ctx q).socket = (s.ctx q).socket :=
      fun q => (hquiet.socket q).trans (copyOut_socket e q)
    have hids : t.acquired = s.acquired := hquiet.acquired.trans (calm_copyOut e).acquired
    have hcount : t.mgr.allConns = s.mgr.allConns := hquiet.allConns.trans hall
    have hnote : g' = g.dispatch ((({ s with cq := rest } : Reactor).copyOut e p).ctx p)
        (t.tasks.drop s.tasks.length) := by
      rw [hg]
      simp only [noteTurn, hop, hctx]
    rw [hnote]
    intro ctx task hmem
    rcases List.mem_append.mp hmem with hold | hadded
    · exact h.kept rfl hids hcount (fun q => ⟨hconn q, hsocket q⟩) ctx task hold
    · obtain ⟨_, _, heq⟩ := List.mem_map.mp hadded
      cases heq
      have hid : ((({ s with cq := rest } : Reactor).copyOut e p).ctx p).connId =
          (s.ctx p).connId :=
        (calm_copyOut e).connId p
      rw [hid, hids]
      refine ⟨hi.held p hbusy, fun q hq hqid => ?_⟩
      rw [hconn] at hqid
      rw [hi.distinct (Nat.le_of_lt hlt) q p (hcount ▸ hq) hbusy hqid, hsocket]
      exact (copyOut_socket (s := { s with cq := rest }) e p).symm

lemma Linked.step (h : Linked s g) (hs : s.view.Sound) (hi : Issued s.mgr s.acquired)
    (hlt : s.acquired.length < 2 ^ 64)
    (hstep : s.step D a = some t) (hg : g' = note s a t g) : Linked t g' := by
  obtain ⟨hen, rfl⟩ := step_cases hstep
  by_cases hhandle : a = .handle
  · subst hhandle
    cases hcq : s.cq with
    | nil => exact absurd hcq hen.2
    | cons e rest =>
      simp only [effect, hcq]
      simp only [note, effect, hcq] at hg
      exact h.handle hs hi hlt hcq rfl hg
  by_cases hwake : a = .wake
  · subst hwake
    exact h.quiet quiet_retryDeferred (hg ▸ note_dispatches hhandle)
  obtain ⟨hmgr, hids⟩ := effect_mgr (D := D) (s := s) hwake hhandle
  refine h.kept (hg ▸ note_dispatches hhandle) hids (by rw [hmgr]) (fun q => ?_)
  have hctx : (s.effect D a).ctx q = s.ctx q := congrArg (fun m => m.contexts q) hmgr
  rw [hctx]
  exact ⟨rfl, rfl⟩

end linked

section delivered

variable {stream : Bytes}

lemma serves_of_delivered (hprovided : Provided service s g) (hlinked : Linked s g)
    (hconserved : Conserved s g)
    (hp : p < s.mgr.allConns) (hstream : stream <+: (g.delivered p).flatMap Coro.frame) :
    Serves service (g.requests (s.ctx p).socket) stream := by
  let own := g.dispatches.filter (fun d => d.1.socket = (s.ctx p).socket)
  have hreply : ∀ c ∈ g.delivered p, ∃ r : ℕ × Request × Bytes,
      (own.map (fun d => d.2.serial))[r.1]? = some c.serial ∧
      (g.requests (s.ctx p).socket)[r.1]? = some r.2.1 ∧ service r.2.1 r.2.2 ∧
        c.frame = responseFrame r.2.1.requestId r.2.2 := by
    intro c hc
    obtain ⟨hid, ctx, task, body, hmem, hserial, hconn, hservice, hframe⟩ :=
      hprovided.delivered p c hc
    have hsocket := (hlinked ctx task hmem).2 p hp (hid.symm.trans hconn.symm)
    have hown : (ctx, task) ∈ own := List.mem_filter.mpr ⟨hmem, by simp [hsocket]⟩
    obtain ⟨i, hi⟩ := List.mem_iff_getElem?.mp hown
    refine ⟨(i, task.request, body), ?_, ?_, hservice, hframe⟩
    · rw [List.getElem?_map, hi, Option.map_some, hserial]
    · rw [Journal.requests, List.getElem?_map, show (g.dispatches.filter _)[i]? = some (ctx, task)
        from hi, Option.map_some]
  have : Inhabited Request := ⟨⟨[], [], 0, []⟩⟩
  choose! reply hreply using hreply
  refine ⟨(g.delivered p).map reply, ?_, ?_, fun r hr => ?_⟩
  · have hserials : ((g.delivered p).map Coro.serial).Nodup := by
      have hresumed := hconserved.serials.nodup_iff.mpr List.nodup_range
      have hsub := (hprovided.order p).map Coro.serial
      rw [List.map_map] at hsub
      exact (List.nodup_append.mp hresumed).2.1.sublist hsub
    rw [List.map_map]
    refine List.Nodup.map_on (fun c hc c' hc' heq => ?_) hserials.of_map
    have hserial := (hreply c hc).1
    have heq' : (reply c).1 = (reply c').1 := heq
    rw [heq', (hreply c' hc').1] at hserial
    exact List.inj_on_of_nodup_map hserials hc hc' (Option.some.inj hserial).symm
  · have hframes : (g.delivered p).flatMap Coro.frame =
        ((g.delivered p).map reply).flatMap (fun r => responseFrame r.2.1.requestId r.2.2) := by
      rw [List.flatMap_map]
      exact List.flatMap_congr (fun c hc => (hreply c hc).2.2.2)
    rw [← hframes]
    exact hstream
  · obtain ⟨c, hc, rfl⟩ := List.mem_map.mp hr
    obtain ⟨_, hget, hservice, _⟩ := hreply c hc
    exact ⟨hget, hservice⟩

end delivered

section carried

lemma dispatches_note (s t : Reactor) (g : Journal) (a : Action) :
    g.dispatches <+: (note s a t g).dispatches := by
  by_cases hhandle : a = .handle
  · subst hhandle
    unfold note
    cases s.cq with
    | nil => exact List.prefix_rfl
    | cons e rest =>
      simp only [noteTurn]
      cases e.op <;> cases e.ctx
      all_goals
        simp only [Journal.dispatch, Journal.resume]
        try split_ifs
      all_goals first | exact List.prefix_rfl | exact List.prefix_append _ _
  · rw [note_dispatches hhandle]

lemma requests_note (s t : Reactor) (g : Journal) (a : Action) (k : ℕ) :
    g.requests k <+: (note s a t g).requests k :=
  ((dispatches_note s t g a).filter _).map _

lemma accepted_note (hhandle : a ≠ .handle) (hsend : ∀ i n, a ≠ .sendDone i n) :
    (note s a t g).accepted = g.accepted := by
  cases a with
  | handle => exact absurd rfl hhandle
  | sendDone i n => exact absurd rfl (hsend i n)
  | _ => rfl

lemma noteTurn_accepted (e : Cqe) (h : ¬ (e.op = .accept ∧ 0 ≤ e.result)) :
    (noteTurn s t g e).accepted = g.accepted := by
  unfold noteTurn
  cases hop : e.op with
  | accept =>
    have hresult : ¬ 0 ≤ e.result := fun hle => h ⟨hop, hle⟩
    simp only [hresult, ↓reduceIte]
  | recv => cases e.ctx <;> rfl
  | send => rfl
  | notify => rfl

variable {x y : Reactor × Journal}

structure Carried (s : Reactor) (g : Journal) (w : ℕ → Bytes) : Prop where
  level : ∀ p < s.mgr.allConns, w (s.ctx p).socket = g.accepted p
  fresh : ∀ k, s.Fresh k → w k = []

lemma Carried.kept (h : Carried s g w) (haccepted : g'.accepted = g.accepted)
    (hall : t.mgr.allConns = s.mgr.allConns)
    (hsocket : ∀ q, (t.ctx q).socket = (s.ctx q).socket) (hfresh : ∀ k, t.Fresh k → s.Fresh k) :
    Carried t g' w where
  level p hp := by
    rw [hsocket, haccepted]
    exact h.level p (hall ▸ hp)
  fresh k hk := h.fresh k (hfresh k hk)

lemma Carried.handle {e : Cqe} {rest : List Cqe} (h : Carried s g w) (hs : s.view.Sound)
    (hcq : s.cq = e :: rest)
    (ht : t = ({ s with cq := rest } : Reactor).handleCqe D e)
    (hg : g' = noteTurn { s with cq := rest } t g e)
    (hfresh : ∀ k, t.Fresh k → s.Fresh k) : Carried t g' w := by
  have hstarts := starts_handleCqe (D := D) hs hcq
  rw [← ht] at hstarts
  by_cases harr : e.op = .accept ∧ 0 ≤ e.result
  · have hsome : e.arrival = some e.result.toNat := if_pos harr
    have hmem : e.result.toNat ∈ s.arrivals := by simp [arrivals, hcq, hsome]
    obtain ⟨k, hopen⟩ := Option.ne_none_iff_exists'.mp (hs.world.arrived _ hmem).2
    have hnew : w k = [] := h.fresh k (.inr ⟨_, hmem, hopen⟩)
    have hquiet := quiet_accepted (D := D) hs hcq harr.1 harr.2
    rw [← ht] at hquiet
    have hv : s.view.Vacant s.mgr.idle.1 s.mgr.idle.2 := hs.vacant
    have hnote : g'.accepted = Function.update g.accepted s.mgr.idle.1 [] := by
      rw [hg]
      simp only [noteTurn, harr.1, harr.2, ↓reduceIte]
      rfl
    refine ⟨fun p hp => ?_, fun k hk => h.fresh k (hfresh k hk)⟩
    rw [hquiet.allConns, acquire_allConns] at hp
    rw [hquiet.socket, hnote, Function.update_apply]
    by_cases hp' : p = s.mgr.idle.1
    · rw [if_pos hp', hp']
      have hctx :
          ((({ s with cq := rest } : Reactor).acquire e.result.toNat).ctx s.mgr.idle.1).socket =
            k := by
        have hacquired := acquire_ctx (s := { s with cq := rest }) e.result.toNat
        have hfile : ({ s with cq := rest } : Reactor).files e.result.toNat = some k := hopen
        rw [hfile] at hacquired
        exact congrArg ConnectionContext.socket hacquired
      rw [hctx, hnew]
    · have hctx : (({ s with cq := rest } : Reactor).acquire e.result.toNat).ctx p = s.ctx p :=
        acquire_ctx_ne (s := { s with cq := rest }) e.result.toNat hp'
      rw [if_neg hp', hctx]
      exact h.level p (hv.old p hp' hp)
  · have haccepted := noteTurn_accepted (s := { s with cq := rest }) (t := t) (g := g) e harr
    rw [← hg] at haccepted
    cases hstarts with
    | accepted hop hresult _ => exact absurd ⟨hop, hresult⟩ harr
    | plain _ hquiet => exact h.kept haccepted hquiet.allConns hquiet.socket hfresh
    | copied p _ hquiet =>
      obtain ⟨_, _, hall⟩ := copyOut_rest (s := { s with cq := rest }) (p := p) e
      exact h.kept haccepted (hquiet.allConns.trans hall)
        (fun q => (hquiet.socket q).trans (copyOut_socket e q)) hfresh

def noteWire (x : Reactor × Journal) (a : Action) (_ : Reactor × Journal) (w : ℕ → Bytes) :
    ℕ → Bytes :=
  match a with
  | .sendDone i n =>
    match x.1.ops[i]? with
    | none => w
    | some o =>
      match o.socket with
      | none => w
      | some k => Function.update w k (w k ++ o.sqe.data.take n)
  | _ => w

lemma noteWire_eq (hsend : ∀ i n, a ≠ .sendDone i n) : noteWire x a y w = w := by
  cases a with
  | sendDone i n => exact absurd rfl (hsend i n)
  | _ => rfl

lemma Carried.sent {i n : ℕ} (h : Carried s g w) (hs : s.view.Sound) (hw : s.Owned)
    (hi : s.Isolated) (hen : s.Enabled (.sendDone i n))
    (hfresh : ∀ k, (s.complete i n []).Fresh k → s.Fresh k) :
    Carried (s.complete i n []) (s.noteSent g i n) (noteWire (s, g) (.sendDone i n) y w) ∧
      ∀ k, noteWire (s, g) (.sendDone i n) y w k = w k ∨
      ∃ p < s.mgr.allConns, (s.ctx p).socket = k := by
  obtain ⟨⟨o, ho, hop, hsocket⟩, _, _⟩ := hen
  obtain ⟨k, hk⟩ := Option.ne_none_iff_exists'.mp (hsocket (.inr rfl))
  have hi' : s.ops[i]? = some o := ho
  have hmem : o ∈ s.ops := List.mem_of_getElem? hi'
  have htag := op_tag hmem
  cases hctx : o.sqe.ctx with
  | none =>
    have hplaced := placed_of_tag hs htag
    simp [hctx, hop, misplaced] at hplaced
  | some p =>
    rw [hctx] at htag
    have hbusy := (tag_busy hs htag).1
    obtain ⟨howner, hown⟩ := hi.taken o hmem p hctx
    have hkp : k = (s.ctx p).socket := (hown k hk).trans howner
    have hwire :
        noteWire (s, g) (.sendDone i n) y w = Function.update w k (w k ++ o.sqe.data.take n) := by
      simp only [noteWire, hi', hk]
    have hnote : (s.noteSent g i n).accepted = Function.update g.accepted p
        (g.accepted p ++ o.sqe.data.take n) := by
      simp only [noteSent, hi', hctx, Journal.accept]
    have hfed : w k = g.accepted p := by
      rw [hkp]
      exact h.level p hbusy
    refine ⟨⟨fun q hq => ?_, fun k' hk' => ?_⟩, fun k' => ?_⟩
    · have hq' : q < s.mgr.allConns := by
        rw [(complete_mgr i n []).1] at hq
        exact hq
      have hsame : (s.complete i n []).ctx q = s.ctx q :=
        congrArg (fun m => m.contexts q) (complete_mgr i n []).1
      rw [hwire, hnote, hsame, Function.update_apply, Function.update_apply]
      by_cases hqp : q = p
      · rw [hqp, if_pos hkp.symm, if_pos rfl, hfed]
      · have hsole : (s.ctx q).socket ≠ k :=
          fun heq => hqp (hi.distinct q p hq' hbusy (heq.trans hkp))
        rw [if_neg hsole, if_neg hqp]
        exact h.level q hq'
    · have hold := hfresh k' hk'
      rw [hwire, Function.update_of_ne]
      · exact h.fresh k' hold
      · rintro rfl
        exact hw.not_fresh hs hbusy (hkp ▸ hold)
    · rw [hwire, Function.update_apply]
      split_ifs with heq
      · exact .inr ⟨p, hbusy, by rw [heq, hkp]⟩
      · exact .inl rfl

end carried

variable (D) in
def serve :
    (Reactor × Journal) × (ℕ → Bytes) → Action → Option ((Reactor × Journal) × (ℕ → Bytes)) :=
  noted (record D) noteWire

/-- No accept takes a descriptor that a queued operation names, no connection id is given out
twice, and the workers answer as the service may. -/
def Orderly (service : Request → Bytes → Prop) (s : Reactor) (a : Action) : Prop :=
  s.unnamed a = true ∧ s.acquired.length < 2 ^ 64 ∧ s.Upholds service a

instance [∀ r body, Decidable (service r body)] : Decidable (Orderly service s a) :=
  inferInstanceAs (Decidable (_ ∧ _ ∧ _))

def serving : (Reactor × Journal) × (ℕ → Bytes) := ((listening, {}), fun _ => [])

structure Answered (service : Request → Bytes → Prop) (s : Reactor) (g : Journal) (w : ℕ → Bytes) :
    Prop where
  provided : Provided service s g
  linked : Linked s g
  carried : Carried s g w
  serves : ∀ k, Serves service (g.requests k) (w k)

section run

variable {as : List Action} {x y : Reactor × Journal} {w : ℕ → Bytes}

lemma Answered.step (h : Answered service x.1 x.2 w) (hs : x.1.view.Sound) (hw : x.1.Owned)
    (hi : x.1.Isolated)
    (hids : Issued x.1.mgr x.1.acquired) (hconserved : Conserved y.1 y.2)
    (hstreamed : ∀ p, Streamed y.1 p (y.2.delivered p) (y.2.accepted p))
    (hok : Orderly service x.1 a)
    (hstep : record D x a = some y) : Answered service y.1 y.2 (noteWire x a y w) := by
  obtain ⟨_, hlt, hup⟩ := hok
  obtain ⟨ht, hg⟩ := noted_cases hstep
  have hprovided := h.provided.change hs hup (change_step hs ht hg)
  have hlinked := h.linked.step hs hids hlt ht hg
  have hfresh : ∀ k, y.1.Fresh k → x.1.Fresh k := fun k => fresh_step hs ht
  have hrequests : ∀ k, x.2.requests k <+: y.2.requests k := by
    rw [hg]
    exact requests_note x.1 y.1 x.2 a
  by_cases hsend : ∃ i n, a = .sendDone i n
  · obtain ⟨i, n, rfl⟩ := hsend
    obtain ⟨hen, hy⟩ := step_cases ht
    have hy' : y.1 = x.1.complete i n [] := hy
    have hnote : y.2 = x.1.noteSent x.2 i n := hg
    rw [hy'] at hfresh
    obtain ⟨hcarried, hwire⟩ := h.carried.sent (y := y) hs hw hi hen hfresh
    rw [← hy', ← hnote] at hcarried
    refine ⟨hprovided, hlinked, hcarried, fun k => ?_⟩
    rcases hwire k with hsame | ⟨p, hp, rfl⟩
    · rw [show noteWire x _ y w k = w k from hsame]
      exact (h.serves k).mono (hrequests k)
    · -- the stream that grows belongs to an open context, whose queue explains it
      have hmgr : y.1.mgr = x.1.mgr := by
        rw [hy']
        exact (complete_mgr i n []).1
      have hp' : p < y.1.mgr.allConns := by
        rw [hmgr]
        exact hp
      have hctx : y.1.ctx p = x.1.ctx p := congrArg (fun m => m.contexts p) hmgr
      have hlevel := hcarried.level p hp'
      have hbehind := (hstreamed p).behind
      rw [← hlevel] at hbehind
      have hserves := serves_of_delivered hprovided hlinked hconserved hp' hbehind
      rw [hctx] at hserves
      exact hserves
  · have hsend' : ∀ i n, a ≠ .sendDone i n := fun i n heq => hsend ⟨i, n, heq⟩
    rw [noteWire_eq hsend']
    refine ⟨hprovided, hlinked, ?_, fun k => (h.serves k).mono (hrequests k)⟩
    obtain ⟨hen, hy⟩ := step_cases ht
    by_cases hhandle : a = .handle
    · subst hhandle
      cases hcq : x.1.cq with
      | nil => exact absurd hcq hen.2
      | cons e rest =>
        simp only [effect, hcq] at hy
        simp only [note, hcq] at hg
        exact h.carried.handle hs hcq hy hg hfresh
    have haccepted : y.2.accepted = x.2.accepted := by
      rw [hg]
      exact accepted_note hhandle hsend'
    by_cases hwake : a = .wake
    · subst hwake
      have hquiet : Quiet x.1 y.1 := hy ▸ quiet_retryDeferred
      exact h.carried.kept haccepted hquiet.allConns hquiet.socket hfresh
    have hmgr := (effect_mgr (D := D) (s := x.1) hwake hhandle).1
    rw [← hy] at hmgr
    refine h.carried.kept haccepted (by rw [hmgr]) (fun q => ?_) hfresh
    exact congrArg (fun m => (m.contexts q).socket) hmgr

lemma record_of_serve {ok : Reactor → Action → Prop} {x : (Reactor × Journal) × (ℕ → Bytes)}
    (h : Run (serve D) (fun x a => ok x.1.1 a) serving as x) :
    Run (record D) (fun x a => ok x.1 a) (listening, {}) as x.1 :=
  by
  have h' : Run (noted (record D) noteWire) (fun x a => ok x.1.1 a) ((listening, {}), fun _ => [])
      as x := h
  exact Run.unnoted (fun (x : Reactor × Journal) a => ok x.1 a) h'

lemma reactor_of_serve {ok : Reactor → Action → Prop} {x : (Reactor × Journal) × (ℕ → Bytes)}
    (h : Run (serve D) (fun x a => ok x.1.1 a) serving as x) :
    Run (Reactor.step D) ok listening as x.1.1 :=
  Run.unnoted ok (record_of_serve h)

lemma answered_run {x : (Reactor × Journal) × (ℕ → Bytes)}
    (h : Run (serve D) (fun x a => Orderly service x.1.1 a) serving as x) :
    Answered service x.1.1 x.1.2 x.2 := by
  refine h.invariant_with (K := fun x => (x.1.1.view.Sound ∧ x.1.1.Owned ∧ x.1.1.Isolated) ∧
      Issued x.1.1.mgr x.1.1.acquired ∧ Conserved x.1.1 x.1.2 ∧
        ∀ p, Streamed x.1.1 p (x.1.2.delivered p) (x.1.2.accepted p))
    (I := fun x => Answered service x.1.1 x.1.2 x.2) ?_ ?_ ?_
  · refine ⟨⟨nofun, nofun, nofun, nofun, fun _ => List.nil_sublist _⟩, nofun,
      ⟨nofun, fun _ _ => rfl⟩, ?_⟩
    exact fun _ => serves_nil
  · intro bs x hr
    have hrecord := record_of_serve hr
    have hreactor := reactor_of_serve hr
    exact ⟨⟨sound_record hrecord, owned_run hreactor.any,
      isolated_run (hreactor.weaken (fun _ _ hok => hok.1))⟩,
      issued_record hrecord, conserved_run hrecord, streamed_run hrecord.any⟩
  · rintro x a y ⟨⟨hs, hw, hi⟩, hids, _⟩ ⟨_, _, hconserved, hstreamed⟩ hinv hok hstep
    obtain ⟨hrecord, hwire⟩ := noted_cases hstep
    rw [hwire]
    exact hinv.step hs hw hi hids hconserved hstreamed hok hrecord

/-- What went out on a socket is responses to distinct requests of those that its decoder
reads in what came in on the same socket, and possibly the beginning of one more. -/
theorem socket_streams (D : Decoding) (service : Request → Bytes → Prop) {as : List Action}
    (h : Run (serve D) (fun x a => Orderly service x.1.1 a) serving as ((t, g), w)) (k : ℕ) :
    Serves service (D.uringDecoder.drain (t.received k)).1 (w k) := by
  have hrecord := record_of_serve h
  have hreactor := reactor_of_serve h
  have hpre := (isolated_run (hreactor.weaken (fun _ _ hok => hok.1))).pre k
  have hserves := (answered_run h).serves k
  rw [show g.requests k = _ from (consumed_run hrecord.any).requests k] at hserves
  exact hserves.mono (D.uringDecoder.drain_prefix hpre)

def sampleService : Request → Bytes → Prop := fun r body => body = [8, r.requestId.toUInt8]

instance (r : Request) (body : Bytes) : Decidable (sampleService r body) :=
  inferInstanceAs (Decidable (_ = _))

theorem socket_streams_sample : ∃ t g w, exec (serve sampleDecoding) serving answeredRun = some
    ((t, g), w) ∧
    (w 0).length = 14 ∧
    Serves sampleService (sampleDecoding.uringDecoder.drain (t.received 0)).1 (w 0) := by
  obtain ⟨⟨⟨t, g⟩, w⟩, ht, hd⟩ : ∃ x, exec (serve sampleDecoding) serving answeredRun = some x ∧
      decide ((x.2 0).length = 14) = true := exec_any (by decide)
  have hrun : Run (serve sampleDecoding) (fun x a => Orderly sampleService x.1.1 a) serving
      answeredRun ((t, g), w) :=
    .of_exec ht (by decide)
  exact ⟨t, g, w, ht, of_decide_eq_true hd, socket_streams sampleDecoding sampleService hrun 0⟩

end run

end Reactor

end KimRpc.Server
