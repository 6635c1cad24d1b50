import FileUploader.Locking
import FileUploader.Serial

/-! # Retry safety of chunk uploads

A client whose answer was lost sends the same upload again. Whether the repeats
change anything is decided by one comparison: no check but the one of the offset
sees what the first upload has left.
-/

namespace FileUploader

open Await

variable {env : Env}

/-- How far session `sid` has come. -/
def progress (w : World) (sid : UUID) : Option (Int × UploadStatus) :=
  (w.session? sid).map fun v => (v.currentOffset, v.status)

/-- Offset, status and chunks of session `sid` read as before. -/
structure Unchanged (sid : UUID) (w w' : World) : Prop where
  progress : progress w' sid = progress w sid
  chunk : ∀ i, w'.chunk? sid i = w.chunk? sid i
  chunkMeta : ∀ i, w'.chunkMeta? sid i = w.chunkMeta? sid i

theorem SameKeys.unchanged {sid : UUID} {w w' : World} (h : SameKeys sid w w') :
    Unchanged sid w w' := by
  refine ⟨?_, h.chunk, h.chunkMeta⟩
  rw [progress, progress, h.session]

/-- The stores after an upload that has been accepted, with session `v`. -/
structure Accepted (env : Env) (sid : UUID) (index : Int) (data : Bytes) (v : UploadSession)
    (w : World) : Prop where
  keyed : Keyed w
  session : w.session? sid = some v
  free : w.lock? sid = none
  chunk : w.chunk? sid index = some data
  chunkMeta : w.chunkMeta? sid index = some ⟨env.sha256 data, data.length⟩

section Repeats

variable {w₀ w w' : World} {sid : UUID} {index : Int} {cs : String} {data : Bytes}
  {v v' : UploadSession} {served : List Served}

/-- What an accepted upload has found, and what it leaves. -/
theorem upload_accepted (hkeyed : Keyed w)
    (h : Alone env (.uploadChunk sid index cs data) w (.ok (.uploaded v')) w') :
    ∃ v, Stores env w sid cs data v ∧ v.updateOffset data.length = .ok v' ∧
      Accepted env sid index data v' w' := by
  have hfree : w'.lock? sid = none := by
    by_cases hstores : ∃ v, Stores env w sid cs data v
    · rcases hstores with ⟨v, hstores⟩
      rcases (alone_upload hstores _).1 h with ⟨_, rfl⟩
      exact ExpiringMap.get_erase_self _ _ sid
    · rcases upload_refused h (fun v hv => hstores ⟨v, hv⟩) with ⟨_, x, hx⟩
      cases hx
  have hkeyed' := alone_keyed hkeyed h
  cases alone_effect hkeyed h sid with
  | untouched _ hupload =>
      rcases hupload index cs data rfl with ⟨x, hx⟩
      cases hx
  | moved hstores haccepted hsession hstored =>
      refine ⟨_, hstores, haccepted, hkeyed', hsession, hfree, ?_, ?_⟩
      · rw [hstored.chunk, if_pos rfl]
      · rw [hstored.chunkMeta, if_pos rfl]
  | gone hop => rcases hop with hop | hop <;> cases hop

/-! ## No room: the repeats are refused -/

/-- A repeat for which there is no room stores the same chunk again, or nothing. -/
theorem repeat_sameKeys {r : Except Exn Response} (h₀ : Accepted env sid index data v w₀)
    (hfull : v.totalSize < v.currentOffset + data.length) (hkeyed : Keyed w)
    (hsame : SameKeys sid w₀ w) (halone : Alone env (.uploadChunk sid index cs data) w r w') :
    SameKeys sid w₀ w' := by
  have hsession := hsame.session.trans h₀.session
  cases alone_effect hkeyed halone sid with
  | untouched hnext =>
      refine ⟨hnext.session.trans hsame.session, fun i => ?_, fun i => ?_⟩
      · exact (hnext.chunk i).trans (hsame.chunk i)
      · exact (hnext.chunkMeta i).trans (hsame.chunkMeta i)
  | stored hstores _ hnext hstored =>
      have hv := hstores.live.symm.trans hsession
      cases hv
      refine ⟨hnext.trans h₀.session.symm, fun i => ?_, fun i => ?_⟩
      · rw [hstored.chunk]
        by_cases hi : i = index
        · rw [if_pos hi, hi, h₀.chunk]
        · rw [if_neg hi, hsame.chunk]
      · rw [hstored.chunkMeta]
        by_cases hi : i = index
        · rw [if_pos hi, hi, h₀.chunkMeta]
        · rw [if_neg hi, hsame.chunkMeta]
  | moved hstores haccepted =>
      -- the offset check lets it through only if there is room
      have hv := hstores.live.symm.trans hsession
      cases hv
      rcases UploadSession.updateOffset_ok haccepted with ⟨_, hfits, _⟩
      omega
  | gone hop => rcases hop with hop | hop <;> cases hop

/-- Any number of repeats, with any time between them. -/
theorem repeats_sameKeys (h₀ : Accepted env sid index data v w₀)
    (hfull : v.totalSize < v.currentOffset + data.length)
    (h : Serial env (fun _ op => op = .uploadChunk sid index cs data) w₀ served w) :
    Keyed w ∧ SameKeys sid w₀ w := by
  induction h with
  | start => exact ⟨h₀.keyed, SameKeys.refl sid w₀⟩
  | serve _ hop _ halone ih =>
      rcases ih with ⟨hkeyed, hsame⟩
      subst hop
      exact ⟨alone_keyed hkeyed halone, repeat_sameKeys h₀ hfull hkeyed hsame halone⟩
  | wait _ hlasts ih =>
      rcases ih with ⟨hkeyed, hsame⟩
      refine ⟨fun s u hu => hkeyed s u ((hlasts s).1.symm.trans hu), ?_, fun i => ?_, fun i => ?_⟩
      · exact (hlasts sid).1.trans hsame.session
      · exact ((hlasts sid).2.2 i).1.trans (hsame.chunk i)
      · exact ((hlasts sid).2.2 i).2.trans (hsame.chunkMeta i)

/-! ## Room: the first repeat is accepted -/

/-- An upload that was accepted is accepted again where there is room for it: it was
not the last chunk then, so it is large enough for any place. -/
theorem repeat_accepted (hstores : Stores env w sid cs data v)
    (haccepted : v.updateOffset data.length = .ok v') (h₀ : Accepted env sid index data v' w₀)
    (hroom : v'.currentOffset + data.length ≤ v'.totalSize) :
    ∃ v'' w', Alone env (.uploadChunk sid index cs data) w₀ (.ok (.uploaded v'')) w' ∧
      v''.currentOffset = v'.currentOffset + data.length ∧ w'.session? sid = some v'' := by
  rcases UploadSession.updateOffset_ok haccepted with
    ⟨hpos, _, hoffset, hid, _, _, htotal, _, hstatus⟩
  have hopened : v'.Open := by
    have hopen := hstores.opened
    unfold UploadSession.Open at hopen ⊢
    rw [hstatus]
    split
    · decide
    · exact hopen
  have hadmits : Admits env v' cs data := by
    rcases hstores.admits with ⟨hmax, hmin, hdigest⟩
    refine ⟨hmax, Or.inl ?_, hdigest⟩
    rcases hmin with hmin | hlast
    · exact hmin
    · omega
  rcases UploadSession.updateOffset_fits hpos hroom with ⟨v'', hmove⟩
  have hagain : Stores env w₀ sid cs data v' := ⟨h₀.session, hopened, h₀.free, hadmits⟩
  have halone : Alone env (.uploadChunk sid index cs data) w₀ (.ok (.uploaded v''))
      ((storing env w₀ sid index data (v'.updateOffset data.length)).unlocked sid) :=
    (alone_upload hagain _).2 ⟨by rw [hmove]; rfl, rfl⟩
  rcases upload_accepted h₀.keyed halone with ⟨_, _, _, hnext⟩
  exact ⟨v'', _, halone, (UploadSession.updateOffset_ok hmove).2.2.1, hnext.session⟩

/-- Such a repeat moves the offset once more. -/
theorem progress_ne_of_moved {v'' : UploadSession} (hpos : 0 < (data.length : Int))
    (hbefore : w₀.session? sid = some v') (hafter : w'.session? sid = some v'')
    (hoffset : v''.currentOffset = v'.currentOffset + data.length) :
    progress w' sid ≠ progress w₀ sid := by
  rw [progress, progress, hbefore, hafter]
  intro heq
  simp only [Option.map_some, Option.some.injEq, Prod.mk.injEq] at heq
  omega

end Repeats

/-- Retry safety: in every state that can be reached, for every upload that is accepted
in it, any number of repeats leaves offset, status and chunks as they are exactly if
the upload does not fit into the file twice from the offset that it has found. -/
theorem retry_safe {now : Nat} {c : Run env} {sid : UUID} {index : Int} {cs : String}
    {data : Bytes} {v' : UploadSession} {w' : World}
    (h : Reach (fun _ _ => True) (Config.start (World.empty now)) c)
    (hfirst : Alone env (.uploadChunk sid index cs data) c.world (.ok (.uploaded v')) w') :
    ∃ v, c.world.session? sid = some v ∧
      ((∀ served w'', Serial env (fun _ op => op = .uploadChunk sid index cs data) w' served w'' →
        Unchanged sid w' w'') ↔ v.totalSize < v.currentOffset + 2 * data.length) := by
  rcases upload_accepted (reach_known h).sound.keyed hfirst with ⟨v, hstores, haccepted, h₀⟩
  rcases UploadSession.updateOffset_ok haccepted with ⟨hpos, _, hoffset, _, _, _, htotal, _⟩
  refine ⟨v, hstores.live, ?_, ?_⟩
  · intro hall
    by_contra hroom
    rcases repeat_accepted hstores haccepted h₀ (by omega) with ⟨v'', w'', halone, hmoved, hnext⟩
    have hserial : Serial env (fun _ op => op = .uploadChunk sid index cs data) w' _ w'' :=
      .serve .start rfl (fun _ hid => by cases hid) halone
    exact progress_ne_of_moved hpos h₀.session hnext hmoved (hall _ _ hserial).progress
  · intro hfull served w'' hserial
    exact (repeats_sameKeys h₀ (by omega) hserial).2.unchanged

/-! ## Concrete runs -/

namespace Demo

/-- The one byte of a file. -/
def smallUpload : Op := .uploadChunk sid 0 (sha256 a) a

/-- The first chunk of a file of 10 MB. -/
def bigUpload : Op := .uploadChunk sid 0 (bigEnv.sha256 big) big

end Demo

theorem reach_sized (env : Env) (size : Int) :
    ∃ c : Run env, Reach (fun _ _ => True) (Config.start (World.empty 0)) c ∧
      c.world = Demo.sized size := by
  have hfirst : Serial env (fun _ _ => True) (World.empty 0) _ (Demo.sized size) :=
    serial_first trivial
  rcases hfirst.reach with ⟨c, hc, hworld, _⟩
  exact ⟨c, hc.mono (fun _ _ _ => trivial), hworld⟩

/-- The byte that a file of one byte consists of may be sent again and again. -/
theorem retry_safe_demo :
    ∃ (c : Run Demo.env) (v' : UploadSession) (w' : World),
      Alone Demo.env Demo.smallUpload c.world (.ok (.uploaded v')) w' ∧
      ∀ served w'', Serial Demo.env (fun _ op => op = Demo.smallUpload) w' served w'' →
        Unchanged Demo.sid w' w'' := by
  rcases reach_sized Demo.env 1 with ⟨c, hc, hworld⟩
  have hfirst : Alone Demo.env Demo.smallUpload c.world (.ok (.uploaded Demo.complete))
      (Demo.uploadedAt 0) := by
    rw [hworld]
    exact alone_uploadedAt 0
  rcases retry_safe hc hfirst with ⟨v, hlive, hiff⟩
  rw [hworld] at hlive
  have hv := hlive.symm.trans session?_initiated
  cases hv
  exact ⟨c, _, _, hfirst, hiff.2 (by decide)⟩

/-- It fails for the first half of a file of 10 MB: the repeat is accepted as the
second half. -/
theorem retry_safe_fails :
    ∃ (c : Run Demo.bigEnv) (v' v'' : UploadSession) (w' w'' : World),
      Reach (fun _ _ => True) (Config.start (World.empty 0)) c ∧
      Alone Demo.bigEnv Demo.bigUpload c.world (.ok (.uploaded v')) w' ∧
      Serial Demo.bigEnv (fun _ op => op = Demo.bigUpload) w'
        [(Demo.bigUpload, .ok (.uploaded v''))] w'' ∧
      w'.session? Demo.sid = some v' ∧ v'.currentOffset = 5 * 1024 * 1024 ∧
      w''.session? Demo.sid = some v'' ∧ v''.currentOffset = 10 * 1024 * 1024 := by
  have hlength := Demo.big_length
  rcases reach_sized Demo.bigEnv (10 * 1024 * 1024) with ⟨c, hc, hworld⟩
  have hkeyed : Keyed c.world := (reach_known hc).sound.keyed
  have hstores : Stores Demo.bigEnv (Demo.sized (10 * 1024 * 1024)) Demo.sid
      (Demo.bigEnv.sha256 Demo.big) Demo.big
      (newSession Demo.sid Demo.tenant Demo.file (10 * 1024 * 1024) (Demo.sha256 Demo.a)) := by
    refine stores_first ⟨?_, Or.inl ?_, rfl⟩
    · rw [hlength]
      decide
    · rw [hlength]
      decide
  rw [← hworld] at hstores
  -- the same 5 MB fit once more
  have hroom : (newSession Demo.sid Demo.tenant Demo.file (10 * 1024 * 1024)
      (Demo.sha256 Demo.a)).currentOffset + Demo.big.length ≤ 10 * 1024 * 1024 := by
    rw [hlength]
    decide
  rcases UploadSession.updateOffset_fits (by omega) hroom with ⟨v', haccepted⟩
  have hfirst : Alone Demo.bigEnv Demo.bigUpload c.world (.ok (.uploaded v')) _ :=
    (alone_upload hstores _).2 ⟨by rw [haccepted]; rfl, rfl⟩
  rcases UploadSession.updateOffset_ok haccepted with ⟨_, _, hoffset, _, _, _, htotal, _⟩
  have hoffset' : v'.currentOffset = 5 * 1024 * 1024 := by
    rw [hoffset, hlength]
    rfl
  have htotal' : v'.totalSize = 10 * 1024 * 1024 := htotal
  rcases upload_accepted hkeyed hfirst with ⟨_, _, _, h₀⟩
  rcases repeat_accepted hstores haccepted h₀ (by omega) with ⟨v'', w'', halone, hmoved, hsession⟩
  refine ⟨c, v', v'', _, w'', hc, hfirst, .serve .start rfl (fun _ hid => by cases hid) halone,
    h₀.session, hoffset', hsession, ?_⟩
  omega

end FileUploader
