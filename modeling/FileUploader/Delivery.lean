import FileUploader.DeployedServer
import FileUploader.Truncation

/-! # Delivery

What a client gets who keeps to the protocol: it initiates a session, sends the pieces of its
file in whatever order, and finalizes within a day. Other clients may send what they like
between its requests, for the same tenant or not, as long as it is not about this session.
Then every piece is accepted, and if the scanner finds nothing in them and S3 takes them as
parts, the file that is stored, listed and announced is made of the pieces in the order of their
numbers.

This is a fact about the server, proved there; the deployed service inherits it.
-/

namespace FileUploader

open Await S3ObjectStorage

/-! ## The requests of a client -/

/-- The piece of the session that a request sends. -/
def HttpRequest.sends (sid : UUID) (request : HttpRequest) : Option (Int × Bytes) :=
  match request.endpoint with
  | .uploadChunk sid' index _ body => if sid' = sid then some (index, body) else none
  | _ => none

/-- The pieces of the session that are sent, in order. -/
def sentIn (sid : UUID) (requests : List (Nat × HttpRequest)) : List (Int × Bytes) :=
  requests.filterMap fun op => op.2.sends sid

/-- A request that is not about the session, or asks for its status, or sends a piece of a
fitting size with its digest. -/
def HttpRequest.Supports (p : Policy) (sid : UUID) (request : HttpRequest) : Prop :=
  match request.endpoint with
  | .initiateUpload _ newId => newId ≠ sid
  | .uploadChunk sid' _ checksum body => sid' = sid →
      body ≠ [] ∧ body.length ≤ 50 * 1024 * 1024 ∧ lower (p.digest body) = lower checksum
  | .querySession _ => True
  | .abortUpload sid' | .finalizeUpload sid' => sid' ≠ sid

/-- A session from its beginning to its end, with what is requested in between. -/
def visiting (sid : UUID) (payload : InitiateUploadRequest) (begins ends : Nat × Option String)
    (during : List (Nat × HttpRequest)) : List (Nat × HttpRequest) :=
  (begins.1, ⟨begins.2, .initiateUpload payload sid⟩) :: during ++
    [(ends.1, ⟨ends.2, .finalizeUpload sid⟩)]

/-- The time that passes. -/
def elapsed (requests : List (Nat × HttpRequest)) : Nat :=
  requests.foldr (fun op d => op.1 + d) 0

/-- The bytes of the pieces. -/
def bytesIn (pieces : List (Int × Bytes)) : Nat := (pieces.map fun q => q.2).flatten.length

/-- All of the file is sent: the pieces are numbered 0, 1, 2, … in some order, and each has the
size that the service asks for, which lets the last one to be sent be smaller. (S3 lets the one
with the highest number be smaller, whenever it was sent.) -/
structure Complete (totalSize : Int) (pieces : List (Int × Bytes)) : Prop where
  numbers : (pieces.map fun q => q.1).Perm (indices pieces.length)
  size : (bytesIn pieces : Int) = totalSize
  large : ∀ q ∈ pieces.dropLast, 5 * 1024 * 1024 ≤ q.2.length

/-! ## The transfer of the session -/

/-- The transfer has these pieces, none of which is forgotten before `deadline`. -/
structure Transfer.Has (t : Transfer) (tenantId : UUID) (payload : InitiateUploadRequest)
    (deadline : Nat) (pieces : List (Int × Bytes)) : Prop where
  tenantId : t.tenantId = tenantId
  fileId : t.fileId = payload.fileId
  totalSize : t.totalSize = payload.totalSize
  checksum : t.checksum = payload.checksum
  active : t.failed = false
  received : t.received = bytesIn pieces
  lasts : deadline ≤ t.expires
  kept : ∀ q ∈ pieces, ∃ piece, t.pieces.get q.1 = some piece ∧ piece.data = q.2 ∧
    deadline ≤ piece.expires
  others : ∀ i, i ∉ pieces.map (fun q => q.1) → t.pieces.get i = none

section Transfers

variable {t : Transfer} {tenantId : UUID} {payload : InitiateUploadRequest} {deadline now : Nat}
  {pieces : List (Int × Bytes)}

theorem begin_has (now : Nat) (tenantId : UUID) (payload : InitiateUploadRequest) :
    (Transfer.begin now tenantId payload).Has tenantId payload (now + retention) [] where
  tenantId := rfl
  fileId := rfl
  totalSize := rfl
  checksum := rfl
  active := rfl
  received := rfl
  lasts := Nat.le_refl _
  kept := fun _ hq => by cases hq
  others := fun _ _ => rfl

theorem bytesIn_concat (pieces : List (Int × Bytes)) (q : Int × Bytes) :
    bytesIn (pieces ++ [q]) = bytesIn pieces + q.2.length := by
  simp [bytesIn]

/-- One more piece, under a new number. -/
theorem Transfer.Has.next (h : t.Has tenantId payload deadline pieces) {q : Int × Bytes}
    (hroom : t.HasRoom q.2) (hnew : q.1 ∉ pieces.map fun q => q.1)
    (hnow : deadline ≤ now + retention) :
    ((t.count now q.2 hroom).keep now q.1 q.2).Has tenantId payload deadline
      (pieces ++ [q]) where
  tenantId := h.tenantId
  fileId := h.fileId
  totalSize := h.totalSize
  checksum := h.checksum
  active := h.active
  received := by
    show t.received + (q.2.length : Int) = _
    rw [h.received, bytesIn_concat]
    exact (Nat.cast_add _ _).symm
  lasts := hnow
  kept := by
    intro q' hq'
    rcases List.mem_append.1 hq' with hq' | hq'
    · rcases h.kept q' hq' with ⟨piece, hget, hdata, hlasts⟩
      have hne : q'.1 ≠ q.1 := by
        intro heq
        exact hnew (heq ▸ List.mem_map_of_mem hq')
      exact ⟨piece, ((Transfer.keep_get _ _ _ _ _).trans (if_neg hne)).trans hget, hdata, hlasts⟩
    · rw [List.mem_singleton.1 hq']
      exact ⟨_, (Transfer.keep_get _ _ _ _ _).trans (if_pos rfl), rfl, hnow⟩
  others := by
    intro i hi
    rw [List.map_append, List.mem_append, not_or] at hi
    have hne : i ≠ q.1 := fun heq => hi.2 (by simp [heq])
    exact ((Transfer.keep_get _ _ _ _ _).trans (if_neg hne)).trans (h.others i hi.1)

/-- With all its pieces, the body of the file is made of them in order. -/
theorem Transfer.Has.body (h : t.Has tenantId payload deadline pieces) (hnow : now < deadline)
    (hnumbers : (pieces.map fun q => q.1).Perm (indices pieces.length))
    (hne : ∀ q ∈ pieces, q.2 ≠ []) : t.body now = (inOrder pieces).map fun q => q.2 := by
  have hfound : ∀ q ∈ pieces, t.next? now q.1.toNat = some q.2 := by
    intro q hq
    rcases h.kept q hq with ⟨piece, hget, hdata, hlasts⟩
    rcases List.mem_map.1 (hnumbers.mem_iff.1 (List.mem_map_of_mem hq)) with ⟨n, _, hn⟩
    have hcast : ((q.1.toNat : Nat) : Int) = q.1 := by
      rw [← hn]
      simp
    have hlater : now < piece.expires := Nat.lt_of_lt_of_le hnow hlasts
    have hfull := hne q hq
    rw [← hdata] at hfull ⊢
    simp [Transfer.next?, Transfer.piece?, hcast, hget, Option.filter, hlater, hfull]
  have hgap : t.next? now pieces.length = none := by
    have hnone : t.pieces.get (pieces.length : Int) = none := by
      refine h.others _ fun hmem => ?_
      rcases List.mem_map.1 (hnumbers.mem_iff.1 hmem) with ⟨n, hn, hcast⟩
      have hlt := List.mem_range.1 hn
      have heq : n = pieces.length := Int.ofNat.inj hcast
      omega
    simp [Transfer.next?, Transfer.piece?, hnone]
  exact (t.body_run now).unique (runFrom_inOrder hnumbers hfound hgap)

end Transfers

/-! ## What the server does with the requests -/

section Serving

variable {p : Policy} {a : Server} {sid tenantId : UUID} {payload : InitiateUploadRequest}
  {deadline : Nat} {t : Transfer} {pieces : List (Int × Bytes)}

/-- The piece that comes next, after `pieces` and before `rest`. -/
theorem Complete.next {totalSize : Int} {q : Int × Bytes} {rest : List (Int × Bytes)}
    (h : Complete totalSize (pieces ++ q :: rest)) :
    (q.1 ∉ pieces.map fun q => q.1) ∧ (bytesIn pieces + q.2.length : Int) ≤ totalSize ∧
      (5 * 1024 * 1024 ≤ q.2.length ∨ (bytesIn pieces + q.2.length : Int) = totalSize) := by
  have hsize : bytesIn (pieces ++ q :: rest) = bytesIn pieces + q.2.length + bytesIn rest := by
    simp [bytesIn, Nat.add_assoc]
  have htotal := h.size
  rw [hsize] at htotal
  push_cast at htotal
  refine ⟨?_, by omega, ?_⟩
  · have hnodup : ((pieces ++ q :: rest).map fun q => q.1).Nodup :=
      h.numbers.nodup_iff.2 (List.nodup_range.map Nat.cast_injective)
    rw [List.map_append, List.map_cons] at hnodup
    intro hmem
    exact (List.nodup_append.1 hnodup).2.2 _ hmem _ List.mem_cons_self rfl
  · cases rest with
    | nil =>
        right
        simpa [bytesIn] using htotal
    | cons q' rest =>
        refine Or.inl (h.large q ?_)
        rw [List.dropLast_append_of_ne_nil (by simp)]
        exact List.mem_append_right _ (by simp)

/-- A piece that is sent as it should be is accepted. -/
theorem piece_accepted (ht : a.transfers sid = some t)
    (h : t.Has tenantId payload deadline pieces) (hnow : a.now < deadline)
    (hlasts : deadline ≤ a.now + retention) {index : Int} {checksum : String} {data : Bytes}
    (hfull : data ≠ []) (hmost : data.length ≤ 50 * 1024 * 1024)
    (hdigest : lower (p.digest data) = lower checksum)
    (hnew : index ∉ pieces.map fun q => q.1)
    (hroom : (bytesIn pieces + data.length : Int) ≤ payload.totalSize)
    (hlarge : 5 * 1024 * 1024 ≤ data.length ∨
      (bytesIn pieces + data.length : Int) = payload.totalSize) (authorization : Option String) :
    (a.serve p ⟨authorization, .uploadChunk sid index checksum data⟩).1.statusCode = 200 ∧
      ∃ t', (a.serve p ⟨authorization, .uploadChunk sid index checksum data⟩).2.transfers sid =
          some t' ∧ t'.Has tenantId payload deadline (pieces ++ [(index, data)]) := by
  have hthere : a.transfer? sid = some t := by
    have hlater : a.now < t.expires := Nat.lt_of_lt_of_le hnow h.lasts
    simp [Server.transfer?, ht, Option.filter, hlater]
  have hrefusal : Server.refusal? p t checksum data = none := by
    have hsmall : ¬ (data.length < 5 * 1024 * 1024 ∧
        t.received + data.length ≠ t.totalSize) := by
      rw [h.received, h.totalSize]
      intro hsmall
      rcases hlarge with hlarge | hlarge
      · omega
      · exact hsmall.2 hlarge
    rw [Server.refusal?, h.active, if_neg (by simp), if_neg (by omega), if_neg hsmall,
      if_neg (not_not.2 hdigest)]
  have hhas : t.HasRoom data := by
    refine ⟨hfull, ?_⟩
    rw [h.received, h.totalSize]
    exact hroom
  have hupload : a.serve p ⟨authorization, .uploadChunk sid index checksum data⟩ =
      (⟨200, .progress (t.count a.now data hhas).received (t.count a.now data hhas).progress⟩,
        a.put sid ((t.count a.now data hhas).keep a.now index data)) := by
    simp only [Server.serve, Server.upload, hthere, hrefusal]
    rw [dif_pos hhas]
  rw [hupload]
  exact ⟨rfl, _, Function.update_self .., h.next (q := (index, data)) hhas hnew hlasts⟩

theorem sends_eq_some {request : HttpRequest} {q : Int × Bytes}
    (h : request.sends sid = some q) :
    ∃ authorization checksum, request = ⟨authorization, .uploadChunk sid q.1 checksum q.2⟩ := by
  rcases request with ⟨authorization, endpoint⟩
  cases endpoint with
  | uploadChunk sid' index checksum body =>
      by_cases hsid : sid' = sid
      · subst hsid
        simp only [HttpRequest.sends, if_true, Option.some.injEq] at h
        subst h
        exact ⟨authorization, checksum, rfl⟩
      · simp [HttpRequest.sends, hsid] at h
  | _ => cases h

/-- Other requests leave the session as it is. -/
theorem serve_besides {request : HttpRequest} (hsupports : request.Supports p sid)
    (hnone : request.sends sid = none) :
    (a.serve p request).2.transfers sid = a.transfers sid := by
  rcases request with ⟨authorization, endpoint⟩
  cases endpoint with
  | initiateUpload payload newId =>
      refine a.serve_other p sid (fun heq => hsupports (Option.some.inj heq)) fun heq => ?_
      cases heq
  | uploadChunk sid' index checksum body =>
      refine a.serve_other p sid (fun heq => by cases heq) fun heq => ?_
      have hsid : sid' = sid := Option.some.inj heq
      simp [HttpRequest.sends, hsid] at hnone
  | querySession sid' =>
      simp only [Server.serve, Server.query]
      split
      · rfl
      · rfl
  | abortUpload sid' =>
      refine a.serve_other p sid (fun heq => ?_) fun heq => hsupports (Option.some.inj heq)
      cases heq
  | finalizeUpload sid' =>
      refine a.serve_other p sid (fun heq => ?_) fun heq => hsupports (Option.some.inj heq)
      cases heq

/-- The session receives what it is sent, whatever else is requested in between. -/
theorem serveAll_receives (requests : List (Nat × HttpRequest))
    (hsupports : ∀ op ∈ requests, op.2.Supports p sid) (ht : a.transfers sid = some t)
    (h : t.Has tenantId payload deadline pieces)
    (hcomplete : Complete payload.totalSize (pieces ++ sentIn sid requests))
    (hnow : a.now + elapsed requests < deadline) (hlasts : deadline ≤ a.now + retention) :
    (∃ t', (a.serveAll p requests).2.transfers sid = some t' ∧
        t'.Has tenantId payload deadline (pieces ++ sentIn sid requests)) ∧
      (a.serveAll p requests).2.now = a.now + elapsed requests ∧
      List.Forall₂ (fun op (response : HttpResponse) =>
        (op.2.sends sid).isSome → response.statusCode = 200)
        requests (a.serveAll p requests).1 := by
  induction requests generalizing a t pieces with
  | nil => exact ⟨⟨t, ht, by simpa [sentIn] using h⟩, rfl, .nil⟩
  | cons op requests ih =>
      rcases op with ⟨d, request⟩
      have hsupport : request.Supports p sid := hsupports (d, request) List.mem_cons_self
      have hrest : ∀ op ∈ requests, op.2.Supports p sid :=
        fun op hop => hsupports op (List.mem_cons_of_mem _ hop)
      have htime : elapsed ((d, request) :: requests) = d + elapsed requests := rfl
      have hclock := ((a.wait d).serve_one p request).1
      have hwait : (a.wait d).now = a.now + d := rfl
      rw [htime] at hnow ⊢
      cases hsends : request.sends sid with
      | none =>
          have hsent : sentIn sid ((d, request) :: requests) = sentIn sid requests := by
            simp [sentIn, hsends]
          rw [hsent] at hcomplete ⊢
          have hsame := serve_besides (a := a.wait d) hsupport hsends
          have hend := ih hrest (hsame.trans ht) h hcomplete (by omega) (by omega)
          refine ⟨hend.1, ?_, .cons ?_ hend.2.2⟩
          · show (Server.serveAll p _ requests).2.now = _
            rw [hend.2.1]
            omega
          · intro hsome
            rw [hsends] at hsome
            cases hsome
      | some q =>
          have hsent : sentIn sid ((d, request) :: requests) = q :: sentIn sid requests := by
            simp [sentIn, hsends]
          rw [hsent] at hcomplete ⊢
          rcases hcomplete.next with ⟨hnew, hroom, hlarge⟩
          rcases sends_eq_some hsends with ⟨authorization, checksum, rfl⟩
          rcases hsupport rfl with ⟨hfull, hmost, hdigest⟩
          rcases piece_accepted (a := a.wait d) ht h (by omega) (by omega) hfull hmost hdigest
            hnew hroom hlarge authorization with ⟨hanswer, t', ht', h'⟩
          rw [List.append_cons] at hcomplete ⊢
          have hend := ih hrest ht' h' hcomplete (by omega) (by omega)
          refine ⟨hend.1, ?_, .cons (fun _ => hanswer) hend.2.2⟩
          show (Server.serveAll p _ requests).2.now = _
          rw [hend.2.1]
          omega

/-- The pieces in the order of their numbers. -/
def contentOf (pieces : List (Int × Bytes)) : List Bytes := (inOrder pieces).map fun q => q.2

/-- A finalize of a session that has all its pieces. -/
theorem finalize_delivers (ht : a.transfers sid = some t)
    (h : t.Has tenantId payload deadline pieces) (hnow : a.now < deadline)
    (hcomplete : Complete payload.totalSize pieces) (hfull : ∀ q ∈ pieces, q.2 ≠ [])
    (hclean : ∀ q ∈ pieces, ¬ LocalVirusScanner.eicarSignature <:+: q.2)
    (haccepts : p.accepts (contentOf pieces)) :
    a.finalize p sid = (⟨200, .finalized (p.address tenantId payload.fileId)⟩,
      a.commit p sid t (contentOf pieces).flatten) := by
  have hthere : a.transfer? sid = some t := by
    have hlater : a.now < t.expires := Nat.lt_of_lt_of_le hnow h.lasts
    simp [Server.transfer?, ht, Option.filter, hlater]
  have hbody : t.body a.now = contentOf pieces := h.body hnow hcomplete.numbers hfull
  have hreceived : t.received = t.totalSize := by
    rw [h.received, h.totalSize]
    exact hcomplete.size
  have hmalware : ¬ ∃ data ∈ contentOf pieces, LocalVirusScanner.eicarSignature <:+: data := by
    rintro ⟨data, hdata, hsig⟩
    rcases List.mem_map.1 hdata with ⟨q, hq, rfl⟩
    exact hclean q ((inOrder_perm pieces).mem_iff.1 hq) hsig
  simp only [Server.finalize, hthere, hbody]
  rw [if_neg (by simp [h.active]), if_neg (not_not.2 hreceived), if_neg hmalware, if_pos haccepts,
    h.tenantId, h.fileId]

/-- The requests of a client who keeps to the protocol, one after the other. -/
theorem serveAll_delivers {begins ends : Nat × Option String}
    {during : List (Nat × HttpRequest)} (htenant : p.tenantOf begins.2 = .ok tenantId)
    (hnew : a.catalogue (tenantId, payload.checksum) = none)
    (hsupports : ∀ op ∈ during, op.2.Supports p sid)
    (hcomplete : Complete payload.totalSize (sentIn sid during))
    (hclean : ∀ q ∈ sentIn sid during, ¬ LocalVirusScanner.eicarSignature <:+: q.2)
    (haccepts : p.accepts (contentOf (sentIn sid during)))
    (htime : elapsed during + ends.1 < retention) :
    ∃ answers b, a.serveAll p (visiting sid payload begins ends during) =
      (⟨201, .initiated (some sid) none false⟩ :: answers ++
        [⟨200, .finalized (p.address tenantId payload.fileId)⟩], b) ∧
      List.Forall₂ (fun op (response : HttpResponse) =>
        (op.2.sends sid).isSome → response.statusCode = 200) during answers ∧
      b.files (tenantId, payload.fileId) = some (contentOf (sentIn sid during)).flatten ∧
      b.catalogue (tenantId, payload.checksum) = some payload.fileId ∧
      b.announced.getLast? = some ⟨tenantId, payload.fileId, p.address tenantId payload.fileId,
        payload.totalSize, payload.checksum⟩ ∧ b.transfers sid = none := by
  rcases begins with ⟨d, authorization⟩
  rcases ends with ⟨d', authorization'⟩
  have hfull : ∀ q ∈ sentIn sid during, q.2 ≠ [] := by
    intro q hq
    rcases List.mem_filterMap.1 hq with ⟨op, hop, hsends⟩
    rcases op with ⟨e, request⟩
    rcases sends_eq_some hsends with ⟨_, checksum, rfl⟩
    exact (hsupports _ hop rfl).1
  -- the session is initiated
  have hbegin : (a.wait d).serve p ⟨authorization, .initiateUpload payload sid⟩ =
      (⟨201, .initiated (some sid) none false⟩,
        (a.wait d).put sid (.begin (a.wait d).now tenantId payload)) := by
    have hnew : (a.wait d).catalogue (tenantId, payload.checksum) = none := hnew
    simp only [Server.serve, Server.initiate, htenant, hnew]
  generalize hb : (a.wait d).put sid (.begin (a.wait d).now tenantId payload) = b at hbegin
  have hnow : b.now = a.now + d := by rw [← hb]; rfl
  have hput : b.transfers sid = some (.begin (a.now + d) tenantId payload) := by
    rw [← hb]
    exact Function.update_self ..
  -- it receives its pieces
  rcases serveAll_receives (p := p) during hsupports hput (begin_has _ tenantId payload) hcomplete
    (by omega) (by omega) with ⟨⟨t, ht, h⟩, hclock, hanswers⟩
  generalize hc : b.serveAll p during = c at ht hclock hanswers
  -- and is finalized
  have hfinal : (c.2.wait d').now < a.now + d + retention := by
    show c.2.now + d' < _
    have htime : elapsed during + d' < retention := htime
    omega
  have hdone := finalize_delivers (a := c.2.wait d') ht h hfinal hcomplete hfull hclean haccepts
  refine ⟨c.1, (c.2.wait d').commit p sid t (contentOf (sentIn sid during)).flatten, ?_, hanswers,
    ?_, ?_, ?_, ?_⟩
  · rw [visiting, List.cons_append, Server.serveAll, hbegin, Server.serveAll_append, hc,
      Server.serveAll, Server.serveAll]
    simp only [Server.serve, hdone]
    rfl
  · rw [← h.tenantId, ← h.fileId]
    exact Function.update_self ..
  · rw [← h.tenantId, ← h.fileId, ← h.checksum]
    exact Function.update_self ..
  · rw [← h.tenantId, ← h.fileId, ← h.totalSize, ← h.checksum]
    exact List.getLast?_concat
  · exact Function.update_self ..

end Serving

/-! ## The deployment -/

/-- In every sequence of requests to the deployed service (every command goes through, and each
request ends before the next one comes), whatever comes before and between them: a session that
is begun, sent all pieces of its file in any order and finalized, within a day, is delivered,
when no piece has the signature in it and S3 accepts the pieces as parts in the order of their
numbers. All requests are answered, every piece is accepted, the file in S3 is made of the
pieces in that order, it is listed under its checksum and announced, and the session is gone. -/
theorem delivered (gateway : Gateway) (host : Host) {now : Nat}
    {before during : List (Nat × HttpRequest)} {begins ends : Nat × Option String}
    {payload : InitiateUploadRequest} {sid tenantId : UUID}
    (hids : ((before ++ visiting sid payload begins ends during).filterMap
      fun op => op.2.newId?).Nodup)
    (htenant : getTenantId gateway begins.2 = .ok tenantId)
    (hsupports : ∀ op ∈ during, op.2.Supports (policy gateway host.env) sid)
    (hcomplete : Complete payload.totalSize (sentIn sid during))
    (hclean : ∀ q ∈ sentIn sid during, ¬ LocalVirusScanner.eicarSignature <:+: q.2)
    (haccepts : (policy gateway host.env).accepts (contentOf (sentIn sid during)))
    (htime : elapsed during + ends.1 < retention) :
    (∃ responses w, (deployedService gateway host).Run (Deployment.empty now)
      (before ++ visiting sid payload begins ends during) responses w) ∧
    ∀ responses w, (deployedService gateway host).Run (Deployment.empty now)
      (before ++ visiting sid payload begins ends during) responses w →
      responses[before.length]? = some ⟨201, .initiated (some sid) none false⟩ →
      (∀ (k : Nat) (op : Nat × HttpRequest), during[k]? = some op → (op.2.sends sid).isSome →
        ∃ response, responses[before.length + 1 + k]? = some response ∧
          response.statusCode = 200) ∧
      responses.getLast? =
        some ⟨200, .finalized (uri host.env (objectKey tenantId payload.fileId))⟩ ∧
      w.outside.objects (objectKey tenantId payload.fileId) =
        some (contentOf (sentIn sid during)).flatten ∧
      w.redis.get (dedupKey tenantId payload.checksum) =
        some (encode (uri host.env (objectKey tenantId payload.fileId))) ∧
      w.outside.events.getLast? = some ⟨tenantId, payload.fileId,
        uri host.env (objectKey tenantId payload.fileId), payload.totalSize, payload.checksum⟩ ∧
      w.redis.get (sessionKey sid) = none := by
  constructor
  · rcases deployed_run gateway host now hids with ⟨w, hrun, _⟩
    exact ⟨_, w, hrun⟩
  intro responses w hrun hbegun
  rcases deployed_unique hids hrun with ⟨hresponses, hdeploys⟩
  rw [Server.serveAll_append] at hresponses hdeploys
  have hlength := (Server.empty now).serveAll_length (policy gateway host.env) before
  generalize (Server.empty now).serveAll (policy gateway host.env) before = earlier
    at hresponses hdeploys hlength
  -- the checksum is not listed yet
  have hnew : earlier.2.catalogue (tenantId, payload.checksum) = none := by
    have hfirst : responses[before.length]? = some ((earlier.2.wait begins.1).serve
        (policy gateway host.env) ⟨begins.2, .initiateUpload payload sid⟩).1 := by
      rw [hresponses, ← hlength, List.getElem?_append_right (Nat.le_refl _), Nat.sub_self]
      rfl
    cases hlisted : earlier.2.catalogue (tenantId, payload.checksum) with
    | none => rfl
    | some fileId =>
        have hlater : (earlier.2.wait begins.1).catalogue (tenantId, payload.checksum) =
            some fileId := hlisted
        have htenant : (policy gateway host.env).tenantOf begins.2 = .ok tenantId := htenant
        rw [hbegun] at hfirst
        simp [Server.serve, Server.initiate, htenant, hlater] at hfirst
  rcases serveAll_delivers htenant hnew hsupports hcomplete hclean haccepts htime with
    ⟨answers, b, hserves, hanswers, hfile, hlisted, hannounced, hgone⟩
  rw [hserves] at hresponses hdeploys
  refine ⟨?_, ?_, ?_, ?_, ?_, ?_⟩
  · intro k op hop hsends
    rcases List.getElem?_eq_some_iff.1 hop with ⟨hk, rfl⟩
    have hk' : k < answers.length := hanswers.length_eq ▸ hk
    have hindex : earlier.1.length + 1 + k - earlier.1.length = k + 1 := by omega
    refine ⟨answers[k], ?_, hanswers.get hk hk' hsends⟩
    rw [hresponses, ← hlength, List.getElem?_append_right (by omega), hindex, List.cons_append,
      List.getElem?_cons_succ, List.getElem?_append_left hk', List.getElem?_eq_getElem hk']
  · rw [hresponses, ← List.append_assoc]
    exact List.getLast?_concat
  · exact (hdeploys.object tenantId payload.fileId).trans hfile
  · rw [hdeploys.dedup, hlisted]
    rfl
  · rw [hdeploys.events]
    exact hannounced
  · rw [hdeploys.session, Server.transfer?, hgone]
    rfl

namespace Demo

theorem length_sha256_b : (sha256 b).length = 64 := by
  decide +kernel

/-- Another file of the same tenant. -/
def otherPayload : InitiateUploadRequest where
  fileId := ⟨5⟩
  totalSize := 1
  checksum := sha256 b
  totalSize_pos := payload.totalSize_pos
  totalSize_le := payload.totalSize_le
  checksum_length := length_sha256_b

/-- A file of one large piece and one more byte. -/
def oddPayload : InitiateUploadRequest :=
  { payload with
    totalSize := odd
    totalSize_pos := by decide
    totalSize_le := by decide }

/-- The deployment with the digest of the large piece as well. -/
def bigHost : Host := { host with env := bigEnv }

/-- While a session receives its two pieces, another one comes and goes. -/
def traffic : List (Nat × HttpRequest) :=
  [(1000, fromTenant (.initiateUpload otherPayload ⟨4⟩)),
    (0, ⟨none, .uploadChunk sid 0 (bigEnv.sha256 big) big⟩),
    (60000, ⟨none, .uploadChunk ⟨4⟩ 0 (bigEnv.sha256 b) b⟩), (3600000, ⟨none, .querySession sid⟩),
    (0, ⟨none, .finalizeUpload ⟨4⟩⟩), (0, ⟨none, .uploadChunk sid 1 (bigEnv.sha256 b) b⟩)]

theorem traffic_supports : ∀ op ∈ traffic, op.2.Supports (policy gateway bigEnv) sid := by
  have hlength := big_length
  intro op hop
  simp only [traffic, List.mem_cons, List.not_mem_nil, or_false] at hop
  rcases hop with rfl | rfl | rfl | rfl | rfl | rfl
  · exact fun heq => by cases heq
  · exact fun _ => ⟨big_ne_nil, by omega, rfl⟩
  · exact fun heq => by cases heq
  · trivial
  · exact fun heq => by cases heq
  · exact fun _ => ⟨by decide, by decide, rfl⟩

theorem sentIn_traffic : sentIn sid traffic = [(0, big), (1, b)] := rfl

theorem complete_traffic : Complete oddPayload.totalSize (sentIn sid traffic) := by
  rw [sentIn_traffic]
  refine ⟨List.Perm.refl _, ?_, ?_⟩
  · simp [bytesIn, big_length, oddPayload, odd, b]
  · intro q hq
    rw [List.mem_singleton.1 hq]
    exact big_length.ge

end Demo

/-- A file of two pieces is delivered. -/
theorem delivered_demo : ∃ (responses : List HttpResponse) (w : Deployment),
    (deployedService Demo.gateway Demo.bigHost).Run (Deployment.empty 0)
      ([] ++ visiting Demo.sid Demo.oddPayload (0, some ("Bearer " ++ Demo.tenant.str)) (0, none)
        Demo.traffic) responses w ∧
      responses.getLast? = some ⟨200, .finalized Demo.registeredUri⟩ ∧
      w.outside.objects Demo.key = some (Demo.big ++ Demo.b) := by
  have hids : (([] ++ visiting Demo.sid Demo.oddPayload (0, some ("Bearer " ++ Demo.tenant.str))
      (0, none) Demo.traffic : List (Nat × HttpRequest)).filterMap
        fun op => op.2.newId?).Nodup := by decide
  have htenant : getTenantId Demo.gateway (some ("Bearer " ++ Demo.tenant.str)) =
      .ok Demo.tenant := by decide +kernel
  have hclean : ∀ q ∈ sentIn Demo.sid Demo.traffic,
      ¬ LocalVirusScanner.eicarSignature <:+: q.2 := by
    intro q hq
    rw [Demo.sentIn_traffic] at hq
    rcases List.mem_pair.1 hq with rfl | rfl
    · exact clean_big
    · exact clean_of_not_mem (by decide)
  have hcontent : contentOf (sentIn Demo.sid Demo.traffic) = [Demo.big, Demo.b] := rfl
  rcases deployed_run Demo.gateway Demo.bigHost 0 hids with ⟨w, hrun, _⟩
  rcases (delivered Demo.gateway Demo.bigHost hids htenant Demo.traffic_supports
    Demo.complete_traffic hclean (by rw [hcontent]; rfl) (by decide)).2 _ w hrun
      (by decide +kernel) with ⟨_, hlast, hobject, _⟩
  refine ⟨_, w, hrun, hlast, hobject.trans ?_⟩
  rw [hcontent]
  simp

end FileUploader
