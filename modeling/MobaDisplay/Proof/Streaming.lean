import MobaDisplay.Network.Streaming

/-!
# Every transfer gets its own file

All transfers share one buffer, and yet no byte gets from one to the other: a round
reads and copies within one handler, so what it leaves in the buffer is never used
again. So each response has, at any time, the head and a prefix of its own file; it
has the whole file once the chain has ended without an error; and the chain ends,
since every round but the last one moves the position by the size of the buffer.
-/

namespace MobaDisplay

open Cxx Transition

theorem letGo_nil {r : Response} (h : r.sendQueue = []) (ifs : Ifstream) (failed : Bool) :
    Transfer.letGo ifs r failed
      = ⟨ifs, { r with streambuf := [] }, .releasing r.streambuf, failed⟩ := by
  unfold Transfer.letGo
  rw [h]

theorem letGo_cons {r : Response} {piece : Bytes} {queue : List Bytes}
    (h : r.sendQueue = piece :: queue) (ifs : Ifstream) (failed : Bool) :
    Transfer.letGo ifs r failed = ⟨ifs, r, .sending, failed⟩ := by
  unfold Transfer.letGo
  rw [h]

/-! ## One transfer -/

/-- **The invariant of a transfer** of the file `F` with `n` sends completed. -/
structure TransferInv (F : Bytes) (n : Nat) (t : Transfer) : Prop where
  /-- It reads its own file, within its bounds. -/
  file : t.ifs.bytes = F
  pos_le : t.ifs.pos ≤ F.length
  /-- The head and what was read so far, and nothing else, was written. -/
  written : t.response.written = fileHead F.length ++ F.take t.ifs.pos
  /-- The socket has a prefix of it. -/
  socket : t.response.socket <+: t.response.written
  /-- Every completed send moved a whole buffer. -/
  rounds : n * bufferSize ≤ F.length
  /-- A pending send has all that was written and is not on the socket. -/
  sending : t.stage = .sending → t.failed = false ∧ t.ifs.failed = false
    ∧ t.response.streambuf = [] ∧ (n + 1) * bufferSize ≤ t.ifs.pos
    ∧ ∃ piece, t.response.sendQueue = [piece] ∧ t.response.socket ++ piece = t.response.written
  /-- The chain ends at the end of the file, or with an error. -/
  ended : t.stage ≠ .sending → t.failed = false → t.ifs.pos = F.length
  /-- The last write has the rest. -/
  releasing : ∀ rest, t.stage = .releasing rest →
    t.response.socket ++ rest <+: t.response.written
      ∧ (t.failed = false → t.response.socket ++ rest = t.response.written)
  done : t.stage = .done → t.failed = false → t.response.socket = t.response.written

/-- **One round** keeps it, on a response that has no send in its queue. -/
theorem transferInv_round {F : Bytes} {n : Nat} {r : Response} {f : Ifstream}
    (hfile : f.bytes = F) (hopen : f.failed = false) (hpos : f.pos ≤ F.length)
    (hrounds : n * bufferSize ≤ f.pos) (hqueue : r.sendQueue = [])
    (hbuf : r.socket ++ r.streambuf = r.written)
    (hwritten : r.written = fileHead F.length ++ F.take f.pos) :
    TransferInv F n (Transfer.letGo (f.skip bufferSize)
      (ResourceLoader.sent r (f.chunk bufferSize)) false) := by
  subst hfile
  have hpos' : (f.skip bufferSize).pos ≤ f.bytes.length := Ifstream.skip_pos_le hpos
  have hwritten' : r.written ++ f.chunk bufferSize
      = fileHead f.bytes.length ++ f.bytes.take (f.skip bufferSize).pos := by
    rw [hwritten, Ifstream.take_skip, List.append_assoc]
  have hall : r.socket ++ (r.streambuf ++ f.chunk bufferSize)
      = r.written ++ f.chunk bufferSize := by
    rw [← List.append_assoc, hbuf]
  have hsocket : r.socket <+: r.written ++ f.chunk bufferSize := ⟨_, hall⟩
  have hrounds' : n * bufferSize ≤ f.bytes.length := by omega
  unfold ResourceLoader.sent
  by_cases hfull : (f.chunk bufferSize).length = bufferSize
  · -- a full buffer: the next round is the callback of its send
    have hcallback : (r.write (f.chunk bufferSize)).send.sendQueue
        = [r.streambuf ++ f.chunk bufferSize] := by simp [hqueue]
    rw [if_pos hfull, letGo_cons hcallback]
    have hstep : (f.skip bufferSize).pos = f.pos + bufferSize := by
      simp only [Ifstream.skip, hfull]
    exact {
      file := rfl
      pos_le := hpos'
      written := hwritten'
      socket := hsocket
      rounds := hrounds'
      sending := fun _ => by
        refine ⟨rfl, Ifstream.skip_failed_of_full hfull, rfl, ?_, _, by simp [hqueue], hall⟩
        rw [hstep, Nat.succ_mul]
        omega
      ended := fun h => absurd rfl h
      releasing := fun _ h => Stage.noConfusion h
      done := fun h => Stage.noConfusion h }
  · -- a short one: the file is at its end, and the response lets go
    rw [if_neg hfull, letGo_nil (by simp [hqueue])]
    have hend : (f.skip bufferSize).pos = f.bytes.length :=
      Ifstream.skip_pos_of_short hopen hpos hfull
    exact {
      file := rfl
      pos_le := hpos'
      written := hwritten'
      socket := hsocket
      rounds := hrounds'
      sending := fun h => Stage.noConfusion h
      ended := fun _ _ => hend
      releasing := fun rest h => by
        obtain rfl := Stage.releasing.inj h
        have hbegun : r.socket ++ (r.streambuf ++ f.chunk bufferSize)
            <+: r.written ++ f.chunk bufferSize := hall ▸ List.prefix_rfl
        exact ⟨hbegun, fun _ => hall⟩
      done := fun h => Stage.noConfusion h }

theorem transferInv_get (F : Bytes) :
    TransferInv F 0 (Transfer.letGo (Ifstream.skip ⟨F, 0, false⟩ bufferSize)
      (ResourceLoader.sent (({} : Response).write (fileHead F.length))
        (Ifstream.chunk ⟨F, 0, false⟩ bufferSize)) false) :=
  transferInv_round rfl rfl (Nat.zero_le _) (by simp) rfl rfl (by simp)

theorem transferInv_complete {F : Bytes} {n : Nat} {ifs : Ifstream} {r : Response} {failed : Bool}
    {piece : Bytes} {queue : List Bytes} (h : TransferInv F n ⟨ifs, r, .sending, failed⟩)
    (hqueue : r.sendQueue = piece :: queue) :
    TransferInv F (n + 1) (Transfer.letGo (ifs.skip bufferSize)
      (ResourceLoader.sent { r with socket := r.socket ++ piece, sendQueue := queue }
        (ifs.chunk bufferSize)) failed) := by
  obtain ⟨hfailed, hopen, hbuf, hrounds, piece', hpiece, hall⟩ := h.sending rfl
  dsimp only at hfailed hpiece hall hbuf
  rw [hqueue] at hpiece
  obtain ⟨rfl, rfl⟩ := List.cons.inj hpiece
  subst hfailed
  refine transferInv_round h.file hopen h.pos_le hrounds rfl ?_ h.written
  show (r.socket ++ piece) ++ r.streambuf = r.written
  rw [hbuf, List.append_nil, hall]

/-- A write that fails may have put a part of its piece on the socket. -/
theorem transferInv_error {F : Bytes} {n : Nat} {ifs : Ifstream} {r : Response} {failed : Bool}
    {piece : Bytes} {queue : List Bytes} (h : TransferInv F n ⟨ifs, r, .sending, failed⟩)
    (hqueue : r.sendQueue = piece :: queue) (k : Nat) :
    TransferInv F (n + 1) (Transfer.letGo ifs
      { r with socket := r.socket ++ piece.take k, sendQueue := [] } true) := by
  obtain ⟨_, _, hbuf, hrounds, piece', hpiece, hall⟩ := h.sending rfl
  dsimp only at hpiece hall hbuf hrounds
  rw [hqueue] at hpiece
  obtain ⟨rfl, rfl⟩ := List.cons.inj hpiece
  have hsocket : r.socket ++ piece.take k <+: r.written := by
    rw [← hall]
    exact (List.prefix_append_right_inj _).mpr (List.take_prefix k piece)
  have hpos : ifs.pos ≤ F.length := h.pos_le
  rw [letGo_nil rfl]
  exact {
    file := h.file
    pos_le := h.pos_le
    written := h.written
    socket := hsocket
    rounds := by omega
    sending := fun h => Stage.noConfusion h
    ended := fun _ h => Bool.noConfusion h
    releasing := fun rest hrest => by
      obtain rfl := Stage.releasing.inj hrest
      refine ⟨?_, fun h => Bool.noConfusion h⟩
      show (r.socket ++ piece.take k) ++ r.streambuf <+: r.written
      rw [hbuf, List.append_nil]
      exact hsocket
    done := fun h => Stage.noConfusion h }

theorem transferInv_release {F : Bytes} {n : Nat} {ifs : Ifstream} {r : Response} {failed : Bool}
    {rest : Bytes} (h : TransferInv F n ⟨ifs, r, .releasing rest, failed⟩) :
    TransferInv F n ⟨ifs, { r with socket := r.socket ++ rest }, .done, failed⟩ where
  file := h.file
  pos_le := h.pos_le
  written := h.written
  socket := (h.releasing rest rfl).1
  rounds := h.rounds
  sending := fun h => Stage.noConfusion h
  ended := fun _ hfailed => h.ended (fun h => Stage.noConfusion h) hfailed
  releasing := fun _ h => Stage.noConfusion h
  done := fun _ hfailed => (h.releasing rest rfl).2 hfailed

theorem transferInv_releaseError {F : Bytes} {n : Nat} {ifs : Ifstream} {r : Response}
    {failed : Bool} {rest : Bytes} (h : TransferInv F n ⟨ifs, r, .releasing rest, failed⟩)
    (k : Nat) :
    TransferInv F n ⟨ifs, { r with socket := r.socket ++ rest.take k }, .done, true⟩ where
  file := h.file
  pos_le := h.pos_le
  written := h.written
  socket := ((List.prefix_append_right_inj _).mpr (List.take_prefix k rest)).trans
    (h.releasing rest rfl).1
  rounds := h.rounds
  sending := fun h => Stage.noConfusion h
  ended := fun _ h => Bool.noConfusion h
  releasing := fun _ h => Stage.noConfusion h
  done := fun _ h => Bool.noConfusion h

/-! ## All of them -/

namespace Streaming

variable {ι : Type} [DecidableEq ι] {rootPath : Bytes}

/-- The file a step opens for `i`. -/
def opens (i : ι) : StreamAction ι → Option Bytes
  | .get j file => if j = i then some file else none
  | _ => none

/-- A step completes a send of `i`. -/
def completes (i : ι) : StreamAction ι → Bool
  | .complete j _ => decide (j = i)
  | _ => false

/-- **The invariant of a run**: each transfer belongs to the one request that opened it. -/
structure RunInv (as : List (StreamAction ι)) (s : Streaming ι) : Prop where
  /-- What is not there has not been opened. -/
  absent : ∀ i, s.transfers i = none → as.filterMap (opens i) = [] ∧ as.countP (completes i) = 0
  /-- What is there has its file from its request. -/
  present : ∀ i t, s.transfers i = some t →
    ∃ F, as.filterMap (opens i) = [F] ∧ TransferInv F (as.countP (completes i)) t

/-- A step that opens nothing for `i`. -/
theorem opens_snoc {i : ι} {a : StreamAction ι} (h : opens i a = none)
    (as : List (StreamAction ι)) : (as ++ [a]).filterMap (opens i) = as.filterMap (opens i) := by
  simp [List.filterMap_append, h]

theorem completes_snoc (i : ι) (as : List (StreamAction ι)) (a : StreamAction ι) :
    (as ++ [a]).countP (completes i)
      = as.countP (completes i) + if completes i a then 1 else 0 := by
  rw [List.countP_append, List.countP_singleton]

/-- A step that sets the transfer of `i` and leaves the others. -/
theorem runInv_set {as : List (StreamAction ι)} {s : Streaming ι} {a : StreamAction ι} {i : ι}
    {loader : ResourceLoader} {t : Transfer} (h : RunInv as s)
    (hothers : ∀ j, j ≠ i → opens j a = none ∧ completes j a = false)
    (hself : ∃ F, (as ++ [a]).filterMap (opens i) = [F]
      ∧ TransferInv F ((as ++ [a]).countP (completes i)) t) :
    RunInv (as ++ [a]) (s.setTransfer loader i t) := by
  refine ⟨?_, ?_⟩
  · intro j hj
    by_cases hji : j = i
    · subst hji
      exact absurd hj (by rw [setTransfer_self]; simp)
    · rw [setTransfer_ne s loader t hji] at hj
      obtain ⟨ho, hc⟩ := hothers j hji
      rw [opens_snoc ho, completes_snoc, hc]
      exact h.absent j hj
  · intro j u hj
    by_cases hji : j = i
    · subst hji
      rw [setTransfer_self] at hj
      obtain rfl := Option.some.inj hj
      exact hself
    · rw [setTransfer_ne s loader t hji] at hj
      obtain ⟨ho, hc⟩ := hothers j hji
      rw [opens_snoc ho, completes_snoc, hc]
      exact h.present j u hj

theorem runInv_start (loader : ResourceLoader) : RunInv [] (start loader : Streaming ι) :=
  ⟨fun _ _ => ⟨rfl, rfl⟩, fun i t ht => absurd ht (by simp [start])⟩

/-- One that opens nothing: the transfer keeps its file. -/
theorem runInv_keep {as : List (StreamAction ι)} {s : Streaming ι} {a : StreamAction ι} {i : ι}
    {loader : ResourceLoader} {t u : Transfer} (h : RunInv as s) (ht : s.transfers i = some t)
    (hopens : ∀ j, opens j a = none) (hothers : ∀ j, j ≠ i → completes j a = false)
    (hself : ∀ F n, TransferInv F n t →
      TransferInv F (n + if completes i a then 1 else 0) u) :
    RunInv (as ++ [a]) (s.setTransfer loader i u) := by
  obtain ⟨F, hF, hinv⟩ := h.present i t ht
  refine runInv_set h (fun j hj => ⟨hopens j, hothers j hj⟩) ⟨F, ?_, ?_⟩
  · rw [opens_snoc (hopens i)]
    exact hF
  · rw [completes_snoc]
    exact hself F _ hinv

theorem runInv_step {as : List (StreamAction ι)} {s s' : Streaming ι} {a : StreamAction ι}
    (h : RunInv as s) (hs : step s a = some s') : RunInv (as ++ [a]) s' := by
  -- a completion counts for its own transfer only
  have hown : ∀ (i : ι) (ec : Option Nat), completes i (.complete i ec) = true := by
    intro i ec
    simp [completes]
  have hothers : ∀ (i : ι) (ec : Option Nat) (j : ι), j ≠ i →
      completes j (.complete i ec) = false := by
    intro i ec j hj
    simp [completes, Ne.symm hj]
  cases step_cases hs with
  | @get i file hnew =>
      obtain ⟨hnone, hzero⟩ := h.absent i hnew
      refine runInv_set h ?_ ⟨file, ?_, ?_⟩
      · intro j hj
        exact ⟨by simp [opens, Ne.symm hj], rfl⟩
      · simp [List.filterMap_append, hnone, opens]
      · rw [completes_snoc, hzero]
        exact transferInv_get file
  | @complete i ifs r failed piece queue ht hqueue =>
      refine runInv_keep h ht (fun _ => rfl) (hothers i none) ?_
      intro F n hinv
      rw [hown]
      exact transferInv_complete hinv hqueue
  | @completeError i ifs r failed piece queue k ht hqueue =>
      refine runInv_keep h ht (fun _ => rfl) (hothers i (some k)) ?_
      intro F n hinv
      rw [hown]
      exact transferInv_error hinv hqueue k
  | @release i ifs r failed rest ht =>
      refine runInv_keep h ht (fun _ => rfl) (fun _ _ => rfl) ?_
      intro F n hinv
      exact transferInv_release hinv
  | @releaseError i ifs r failed rest k ht =>
      refine runInv_keep h ht (fun _ => rfl) (fun _ _ => rfl) ?_
      intro F n hinv
      exact transferInv_releaseError hinv k

theorem runInv_run {loader : ResourceLoader} {as : List (StreamAction ι)} {s : Streaming ι}
    (h : (system rootPath).run (start loader) as = some s) : RunInv as s :=
  System.run_induction (P := RunInv) (runInv_start loader)
    (fun _ _ _ _ _ hinv hs => runInv_step hinv hs) h

/-! ## A chain that has ended stays ended -/

/-- The transfer of `i` has ended its chain, with this stream and this much written. -/
def Ended (i : ι) (ifs : Ifstream) (written : Bytes) (s : Streaming ι) : Prop :=
  ∃ t, s.transfers i = some t ∧ t.stage ≠ .sending ∧ t.ifs = ifs ∧ t.response.written = written

/-- A step that sets the transfer of `j`, and if that is `i`, leaves stream and writes alone. -/
theorem ended_set {i j : ι} {ifs : Ifstream} {written : Bytes} {s : Streaming ι}
    {loader : ResourceLoader} {t : Transfer} (h : Ended i ifs written s)
    (hself : i = j → t.stage ≠ .sending ∧ t.ifs = ifs ∧ t.response.written = written) :
    Ended i ifs written (s.setTransfer loader j t) := by
  by_cases hj : i = j
  · have hkept := hself hj
    subst hj
    exact ⟨t, setTransfer_self s loader i t, hkept⟩
  · obtain ⟨u, hu, hrest⟩ := h
    exact ⟨u, by rw [setTransfer_ne s loader t hj]; exact hu, hrest⟩

/-- **Nothing is read or written once the chain has ended.** -/
theorem ended_step {i : ι} {ifs : Ifstream} {written : Bytes} {s s' : Streaming ι}
    {a : StreamAction ι} (h : Ended i ifs written s) (hs : step s a = some s') :
    Ended i ifs written s' := by
  obtain ⟨t, ht, hstage, hifs, hwritten⟩ := id h
  have hone : ∀ u, s.transfers i = some u → u = t :=
    fun u hu => Option.some.inj (hu.symm.trans ht)
  cases step_cases hs with
  | @get j file hnew =>
      refine ended_set h ?_
      rintro rfl
      rw [hnew] at ht
      exact absurd ht (by simp)
  | @complete j f r failed piece queue ht' hqueue =>
      -- no send of `i` is pending any more
      refine ended_set h ?_
      rintro rfl
      obtain rfl := hone _ ht'
      exact absurd rfl hstage
  | @completeError j f r failed piece queue k ht' hqueue =>
      refine ended_set h ?_
      rintro rfl
      obtain rfl := hone _ ht'
      exact absurd rfl hstage
  | @release j f r failed rest ht' =>
      refine ended_set h ?_
      rintro rfl
      obtain rfl := hone _ ht'
      exact ⟨fun hsend => Stage.noConfusion hsend, hifs, hwritten⟩
  | @releaseError j f r failed rest k ht' =>
      refine ended_set h ?_
      rintro rfl
      obtain rfl := hone _ ht'
      exact ⟨fun hsend => Stage.noConfusion hsend, hifs, hwritten⟩

theorem ended_run {i : ι} {ifs : Ifstream} {written : Bytes} {s s' : Streaming ι}
    {as : List (StreamAction ι)} (h : Ended i ifs written s)
    (hrun : (system rootPath).run s as = some s') : Ended i ifs written s' :=
  System.run_induction (P := fun _ u => Ended i ifs written u) h
    (fun _ _ _ _ _ hended hs => ended_step hended hs) hrun

/-! ## What a client receives -/

/-- What was written is a prefix of head and file, and all of it at the end of the file. -/
theorem written_prefix {F : Bytes} {n : Nat} {t : Transfer} (h : TransferInv F n t) :
    t.response.written <+: fileHead F.length ++ F
      ∧ (t.ifs.pos = F.length → t.response.written = fileHead F.length ++ F) := by
  refine ⟨?_, ?_⟩
  · rw [h.written]
    exact (List.prefix_append_right_inj _).mpr (List.take_prefix _ F)
  · intro hpos
    rw [h.written, hpos, List.take_length]

/-- A pending send can complete, one way or the other. -/
theorem complete_enabled {F : Bytes} {n : Nat} {s : Streaming ι} {i : ι} {t : Transfer}
    (ht : s.transfers i = some t) (h : TransferInv F n t) (hstage : t.stage = .sending)
    (ec : Option Nat) : ∃ s', step s (.complete i ec) = some s' := by
  obtain ⟨_, _, _, _, piece, hpiece, _⟩ := h.sending hstage
  obtain ⟨ifs, r, stage, failed⟩ := t
  dsimp only at hstage hpiece
  subst hstage
  rw [← Option.isSome_iff_exists]
  cases ec with
  | none => simp only [step, ht, hpiece, Option.isSome_some]
  | some k => simp only [step, ht, hpiece, Option.isSome_some]

/--
**Framing and isolation of streamed files**, in every run.

A transfer belongs to one request and its file. What was written to its response,
and what the socket has of it, is a prefix of the head that announces the length of
this file and its bytes; it is all of them once the chain has ended, and once the
socket has everything, unless a write has failed. Every completed send stands for a
whole buffer of the file, and one that is pending can complete, so the chain ends.
After an error nothing more is read or written.
-/
theorem files_streamed {as : List (StreamAction ι)} {s : Streaming ι}
    (hrun : (system rootPath).run (start (.make rootPath)) as = some s) {i : ι} {t : Transfer}
    (ht : s.transfers i = some t) :
    ∃ F, as.filterMap (opens i) = [F]
      ∧ t.response.written <+: fileHead F.length ++ F
      ∧ t.response.socket <+: fileHead F.length ++ F
      ∧ (t.stage ≠ .sending → t.failed = false → t.response.written = fileHead F.length ++ F)
      ∧ (t.stage = .done → t.failed = false → t.response.socket = fileHead F.length ++ F)
      ∧ as.countP (completes i) * bufferSize ≤ F.length
      ∧ (t.stage = .sending → ∀ ec, ∃ s', step s (.complete i ec) = some s')
      ∧ (t.failed = true → ∀ bs s', (system rootPath).run s bs = some s' →
          ∃ t', s'.transfers i = some t' ∧ t'.ifs = t.ifs
            ∧ t'.response.written = t.response.written) := by
  obtain ⟨F, hF, hinv⟩ := (runInv_run hrun).present i t ht
  obtain ⟨hbegun, hwhole⟩ := written_prefix hinv
  refine ⟨F, hF, hbegun, hinv.socket.trans hbegun, ?_, ?_, hinv.rounds,
    complete_enabled ht hinv, ?_⟩
  · intro hstage hfailed
    exact hwhole (hinv.ended hstage hfailed)
  · intro hdone hfailed
    rw [hinv.done hdone hfailed]
    exact hwhole (hinv.ended (fun hsend => Stage.noConfusion (hdone.symm.trans hsend)) hfailed)
  · intro hfailed bs s' hbs
    -- a failed write has ended the chain
    have hstage : t.stage ≠ .sending := by
      intro hsend
      rw [(hinv.sending hsend).1] at hfailed
      exact Bool.noConfusion hfailed
    have hended : Ended i t.ifs t.response.written s := ⟨t, ht, hstage, rfl, rfl⟩
    obtain ⟨t', ht', _, hifs, hwritten⟩ := ended_run hended hbs
    exact ⟨t', ht', hifs, hwritten⟩

/-- Two requests, one for a file of two bytes and one for an empty file. -/
def twoRequests : List (StreamAction Nat) :=
  [.get 0 [104, 105], .get 1 [], .release 1 none, .release 0 none]

theorem files_streamed_two :
    ∃ s t, (system []).run (start (.make [])) twoRequests = some s ∧ s.transfers 0 = some t
      ∧ t.response.socket = fileHead 2 ++ [104, 105] := by
  have hrun : (system []).run (start (.make [])) twoRequests = some _ := rfl
  obtain ⟨F, hF, _, _, _, hdone, _⟩ := files_streamed hrun (i := 0) rfl
  obtain rfl := (List.cons.inj hF).1
  exact ⟨_, _, hrun, rfl, hdone rfl rfl⟩

end Streaming

end MobaDisplay
