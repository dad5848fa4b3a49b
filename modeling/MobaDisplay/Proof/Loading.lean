import MobaDisplay.Proof.AnswerText
import MobaDisplay.Proof.Browsing
import MobaDisplay.Proof.SessionOrder
import MobaDisplay.Proof.Streaming
import MobaDisplay.Server.ResourceLoader

/-!
# A browser that loads files

One connection from end to end: the requests of a browser, the session that reads them,
the loader it calls, and the transfer that writes the answer to the socket. The write of
`send_on_delete` is the one that goes on with the session: after it the next request is
read, or the connection ends. The loader serves other connections as well, between any
two steps of this one.

The session is `Browsing` and the transfer is `Streaming`, and what was proved about each
of them holds of it here. `Phase` connects the two: the socket has the answers to all
calls but perhaps the last, and of that one what its transfer says.
-/

namespace MobaDisplay

open Cxx Transition HttpConnection

structure Loading (server : HttpServer) where
  browsing : Browsing server
  loader : ResourceLoader
  /-- The answer that is being written. -/
  transfer : Option Transfer := none
  /-- What the socket has taken of the answers before. -/
  sent : Bytes := []
  /-- An answer was cut off. -/
  cut : Bool := false

namespace Loading

variable {server : HttpServer}

inductive Action where
  /-- A step of the browser or of the session. -/
  | browse (a : Browsing.Action)
  /-- The first send in the queue completes, or fails with some of its bytes taken. -/
  | complete (ec : Option Nat)
  /-- So does the write of `send_on_delete`. -/
  | release (ec : Option (ErrorCode × Nat))
  /-- The loader serves another connection. -/
  | others (loader : ResourceLoader)

/-- What the socket has taken. -/
def onSocket (s : Loading server) : Bytes :=
  s.sent ++ match s.transfer with
    | some t => t.response.socket
    | none => []

/-- The resource function, and what is left of its response when it returns. -/
def answer (fs : FileSystem) (s : Loading server) (path : Bytes) : Loading server :=
  let answer := s.loader.handle fs path
  { s with
    loader := answer.loader
    transfer := some (Transfer.letGo (answer.ifs.getD ⟨[], 0, false⟩) answer.response false) }

/-- The session has gone on; if it has found a request, the resource function is called. -/
def goOn (fs : FileSystem) (s : Loading server) (browsing : Browsing server) : Loading server :=
  match browsing.link.connection.session, s.transfer with
  | .responding request, none => answer fs { s with browsing := browsing } request.path
  | _, _ => { s with browsing := browsing }

/-- A step of the transfer alone. -/
def transferStep (s : Loading server) (a : StreamAction Unit) : Option (Loading server) :=
  (Streaming.step ⟨s.loader, fun _ => s.transfer⟩ a).map fun streaming =>
    { s with loader := streaming.loader, transfer := streaming.transfers () }

/-- The last write is done, and its handler goes on with the session. -/
def finish (s : Loading server) (a : HttpLink.Action) : Option (Loading server) :=
  (Browsing.step s.browsing (.server a)).map fun browsing =>
    { s with browsing := browsing, sent := s.onSocket, transfer := none }

def step (fs : FileSystem) (s : Loading server) : Action → Option (Loading server)
  | .browse (.server .responded) => none
  | .browse (.server (.fail ec)) =>
      match s.transfer with
      | some _ => none
      | none => (Browsing.step s.browsing (.server (.fail ec))).map (goOn fs s)
  | .browse (.server .stop) =>
      (finish s .stop).map fun s' => { s' with cut := s.cut || s.transfer.isSome }
  | .browse a => (Browsing.step s.browsing a).map (goOn fs s)
  | .complete ec =>
      (transferStep s (.complete () ec)).map fun s' => { s' with cut := s.cut || ec.isSome }
  | .release none => (transferStep s (.release () none)).bind fun s' => finish s' .responded
  | .release (some (ec, k)) =>
      (transferStep s (.release () (some k))).bind fun s' =>
        (finish s' (.fail ec)).map fun s'' => { s'' with cut := true }
  | .others loader =>
      if loader.rootPath = s.loader.rootPath then some { s with loader := loader } else none

def system (server : HttpServer) (fs : FileSystem) (rootPath : Bytes) :
    System (Loading server) Action where
  init := fun s => ∃ todo, s = { browsing := { todo := todo }, loader := .make rootPath }
  step := step fs

/-! ## What a request is answered with -/

/-- Status and content. -/
def contentOf (fs : FileSystem) (rootPath path : Bytes) : StatusCode × Bytes :=
  match openTarget fs rootPath path with
  | .ok (_, ifs) => (.successOk, ifs.bytes)
  | .error e => (.clientErrorBadRequest, ResourceLoader.errorText path e)

def answerOf (fs : FileSystem) (rootPath path : Bytes) : Bytes :=
  answerText (contentOf fs rootPath path).1 (contentOf fs rootPath path).2 []

/-- A path that leads to no directory in the place of a file. -/
def Regular (fs : FileSystem) (rootPath path : Bytes) : Prop :=
  ∀ place ifs, openTarget fs rootPath path = .ok (place, ifs) → ifs = .openAte ifs.bytes

/-- What the calls of resource functions are answered with. -/
def answersTo (fs : FileSystem) (rootPath : Bytes) (calls : List HttpEffect) : Bytes :=
  calls.flatMap fun
    | .resource request _ => answerOf fs rootPath request.path
    | _ => []

/-- A file is answered as any text would be. -/
theorem fileHead_append (file : Bytes) :
    fileHead file.length ++ file = answerText .successOk file [] := by
  have hhead : utf8 "HTTP/1.1 200 OK\r\nContent-Length: "
      = utf8 "HTTP/1.1 " ++ utf8 "200 OK" ++ utf8 "\r\n" ++ utf8 "Content-Length: " := by
    decide +kernel
  simp [answerText, writeHeader, fileHead, hhead, StatusCode.text]

/-! ## The transfer of an answer -/

/-- A transfer that is writing this text, and has not written it completely. -/
inductive Answering (text : Bytes) : Transfer → Prop where
  | file {file : Bytes} {n : Nat} {t : Transfer} (htext : text = fileHead file.length ++ file)
      (inv : TransferInv file n t) (whole : t.failed = false) (live : t.stage ≠ .done) :
      Answering text t
  | error (ifs : Ifstream) {r : Response} (socket : r.socket = []) :
      Answering text ⟨ifs, r, .releasing text, false⟩

theorem letGo_failed (ifs : Ifstream) (r : Response) (failed : Bool) :
    (Transfer.letGo ifs r failed).failed = failed := by
  unfold Transfer.letGo
  split
  · rfl
  · rfl

theorem letGo_live (ifs : Ifstream) (r : Response) (failed : Bool) :
    (Transfer.letGo ifs r failed).stage ≠ .done := by
  unfold Transfer.letGo
  split
  · exact nofun
  · exact nofun

theorem answering_start {fs : FileSystem} {loader : ResourceLoader} {path : Bytes}
    (h : Regular fs loader.rootPath path) :
    Answering (answerOf fs loader.rootPath path)
      (Transfer.letGo ((loader.handle fs path).ifs.getD ⟨[], 0, false⟩)
        (loader.handle fs path).response false) := by
  unfold answerOf contentOf ResourceLoader.handle
  cases hopen : openTarget fs loader.rootPath path with
  | error e => exact .error _ rfl
  | ok opened =>
      obtain ⟨place, ifs⟩ := opened
      -- no directory was opened, so the stream has as many bytes as it tells
      have hregular := h place ifs hopen
      dsimp only
      rw [hregular, ResourceLoader.streamFile_eq]
      exact .file (fileHead_append ifs.bytes).symm (transferInv_get ifs.bytes) (letGo_failed _ _ _)
        (letGo_live _ _ _)

theorem Answering.socket_prefix {text : Bytes} {t : Transfer} (h : Answering text t) :
    t.response.socket <+: text := by
  cases h with
  | file htext inv _ _ =>
      rw [htext]
      exact inv.socket.trans (Streaming.written_prefix inv).1
  | error _ socket =>
      rw [socket]
      exact List.nil_prefix

/-- A completed send leads on to the next round. -/
theorem answering_complete {text : Bytes} {t : Transfer} {loader : ResourceLoader}
    {streaming : Streaming Unit} (h : Answering text t)
    (hstep : Streaming.step ⟨loader, fun _ => some t⟩ (.complete () none) = some streaming) :
    ∃ t', streaming.transfers () = some t' ∧ Answering text t' := by
  cases Streaming.step_cases hstep with
  | complete ht hqueue =>
      obtain rfl := Option.some.inj ht
      cases h with
      | file htext inv whole _ =>
          dsimp only at whole
          subst whole
          exact ⟨_, Streaming.setTransfer_self _ _ _ _,
            .file htext (transferInv_complete inv hqueue) (letGo_failed _ _ _) (letGo_live _ _ _)⟩

/-- The last write completes the answer. -/
theorem answering_release {text : Bytes} {t : Transfer} {loader : ResourceLoader}
    {streaming : Streaming Unit} (h : Answering text t)
    (hstep : Streaming.step ⟨loader, fun _ => some t⟩ (.release () none) = some streaming) :
    ∃ t', streaming.transfers () = some t' ∧ t'.response.socket = text := by
  cases Streaming.step_cases hstep with
  | release ht =>
      obtain rfl := Option.some.inj ht
      refine ⟨_, Streaming.setTransfer_self _ _ _ _, ?_⟩
      cases h with
      | file htext inv whole _ =>
          have hdone := transferInv_release inv
          rw [hdone.done rfl whole, htext]
          exact (Streaming.written_prefix hdone).2 (hdone.ended nofun whole)
      | error _ socket =>
          dsimp only
          rw [socket, List.nil_append]

/-- Some write of an answer can always complete. -/
theorem answering_enabled {text : Bytes} {t : Transfer} (h : Answering text t)
    (loader : ResourceLoader) :
    (∃ s', Streaming.step ⟨loader, fun _ => some t⟩ (.complete () none) = some s')
      ∨ ∃ s', Streaming.step ⟨loader, fun _ => some t⟩ (.release () none) = some s' := by
  cases h with
  | error _ _ => exact .inr ⟨_, rfl⟩
  | file _ inv _ live =>
      cases hstage : t.stage with
      | sending => exact .inl (Streaming.complete_enabled rfl inv hstage none)
      | releasing rest =>
          obtain ⟨ifs, r, stage, failed⟩ := t
          dsimp only at hstage
          subst hstage
          exact .inr ⟨_, rfl⟩
      | done => exact absurd hstage live

/-! ## The session -/

/-- What one step makes of a session that waits: no call, or one more. -/
inductive Proceeds (c c' : HttpConnection) : Prop where
  | stays (session : ∀ m, c'.session ≠ .responding m)
      (calls : resourceCalls c'.log = resourceCalls c.log)
  | calls (m : RequestMessage) (content : Bytes) (session : c'.session = .responding m)
      (calls : resourceCalls c'.log = resourceCalls c.log ++ [.resource m content])

theorem proceeds_goes {c c' : HttpConnection} (h : Goes server c c') : Proceeds c c' := by
  cases h with
  | @waits session hwait =>
      refine .stays ?_ rfl
      rintro m hresponding
      dsimp only at hresponding
      rw [hresponding] at hwait
      cases hwait
  | fails ec => exact .stays nofun (Browsing.resourceCalls_onError _ _)
  | finds m content =>
      unfold findResource
      split
      · exact .stays nofun (Browsing.resourceCalls_upgrade _ _)
      · split
        · exact .calls m content rfl (Browsing.resourceCalls_resource _ _ _)
        · exact .stays nofun rfl

/-- A step of the browser or the session, while no response is being written. -/
theorem proceeds_browse {b b' : Browsing server} {a : Browsing.Action}
    (hsession : ∀ m, b.link.connection.session ≠ .responding m)
    (hstep : Browsing.step b a = some b') : Proceeds b.link.connection b'.link.connection := by
  cases a with
  | ask =>
      simp only [Browsing.step] at hstep
      split at hstep
      · cases hstep
      · obtain ⟨-, ⟨⟩⟩ := Option.ite_none_right_eq_some.mp hstep
        exact .stays hsession rfl
  | deliver n =>
      obtain ⟨-, ⟨⟩⟩ := Option.ite_none_right_eq_some.mp hstep
      exact .stays hsession rfl
  | server a =>
      cases a with
      | arrive bytes => cases hstep
      | complete n =>
          obtain ⟨link, hlink, rfl⟩ := Option.map_eq_some_iff.mp hstep
          obtain ⟨w, hwait, -, haccepts, rfl⟩ := HttpLink.complete_eq_some.mp hlink
          exact proceeds_goes (goes_handle hwait haccepts)
      | responded =>
          obtain ⟨link, hlink, rfl⟩ := Option.map_eq_some_iff.mp hstep
          obtain ⟨m, hresponding, -⟩ := HttpLink.responded_eq_some hlink
          exact absurd hresponding (hsession m)
      | fail ec =>
          obtain ⟨link, hlink, rfl⟩ := Option.map_eq_some_iff.mp hstep
          obtain ⟨-, ⟨⟩⟩ := Option.ite_none_right_eq_some.mp hlink
          exact .stays (by rintro _ ⟨⟩) (Browsing.resourceCalls_onError _ _)
      | stop =>
          obtain ⟨link, hlink, rfl⟩ := Option.map_eq_some_iff.mp hstep
          obtain ⟨-, ⟨⟩⟩ := Option.ite_none_right_eq_some.mp hlink
          exact .stays (by rintro _ ⟨⟩) rfl

/-- What has been asked is not forgotten. -/
theorem asked_grows {b b' : Browsing server} {a : Browsing.Action}
    (hstep : Browsing.step b a = some b') : b.asked <+: b'.asked := by
  cases a with
  | ask =>
      simp only [Browsing.step] at hstep
      split at hstep
      · cases hstep
      · obtain ⟨-, ⟨⟩⟩ := Option.ite_none_right_eq_some.mp hstep
        exact List.prefix_append _ _
  | deliver n =>
      obtain ⟨-, ⟨⟩⟩ := Option.ite_none_right_eq_some.mp hstep
      exact List.prefix_refl _
  | server a =>
      cases a with
      | arrive bytes => cases hstep
      | _ =>
          obtain ⟨link, hlink, rfl⟩ := Option.map_eq_some_iff.mp hstep
          exact List.prefix_refl _

/-- While a response is being written, the browser can go on and the session cannot. -/
theorem browse_responding {b b' : Browsing server} {a : Browsing.Action} {m : RequestMessage}
    (hsession : b.link.connection.session = .responding m)
    (hcalm : a ≠ .server .responded ∧ a ≠ .server .stop ∧ ∀ ec, a ≠ .server (.fail ec))
    (hstep : Browsing.step b a = some b') : b'.link.connection = b.link.connection := by
  cases a with
  | ask =>
      simp only [Browsing.step] at hstep
      split at hstep
      · cases hstep
      · obtain ⟨-, ⟨⟩⟩ := Option.ite_none_right_eq_some.mp hstep
        rfl
  | deliver n =>
      obtain ⟨-, ⟨⟩⟩ := Option.ite_none_right_eq_some.mp hstep
      rfl
  | server a =>
      cases a with
      | arrive bytes => cases hstep
      | complete n =>
          obtain ⟨link, hlink, rfl⟩ := Option.map_eq_some_iff.mp hstep
          obtain ⟨w, hwait, -, -, -⟩ := HttpLink.complete_eq_some.mp hlink
          rw [hsession] at hwait
          cases hwait
      | responded => exact absurd rfl hcalm.1
      | stop => exact absurd rfl hcalm.2.1
      | fail ec => exact absurd rfl (hcalm.2.2 ec)

/-! ## The two together -/

/-- How far the answers are with the calls. -/
inductive Phase (fs : FileSystem) (rootPath : Bytes) (s : Loading server) : Prop where
  | idle (transfer : s.transfer = none)
      (session : ∀ m, s.browsing.link.connection.session ≠ .responding m)
      (sent : s.sent = answersTo fs rootPath (resourceCalls s.browsing.link.connection.log))
  | answering (t : Transfer) (calls : List HttpEffect) (m : RequestMessage) (content : Bytes)
      (transfer : s.transfer = some t)
      (session : s.browsing.link.connection.session = .responding m)
      (logged : resourceCalls s.browsing.link.connection.log = calls ++ [.resource m content])
      (sent : s.sent = answersTo fs rootPath calls)
      (answering : Answering (answerOf fs rootPath m.path) t)

/-- Nothing was cut off, and no directory was asked for as a file. -/
def Sound (fs : FileSystem) (rootPath : Bytes) (s : Loading server) : Prop :=
  s.cut = false ∧ ∀ r ∈ s.browsing.asked, Regular fs rootPath r.message.path

structure Inv (fs : FileSystem) (rootPath : Bytes) (s : Loading server) : Prop where
  browsing : (Browsing.system server).Reachable s.browsing
  root : s.loader.rootPath = rootPath
  phase : Sound fs rootPath s → Phase fs rootPath s

theorem answersTo_append (fs : FileSystem) (rootPath : Bytes) (calls calls' : List HttpEffect) :
    answersTo fs rootPath (calls ++ calls')
      = answersTo fs rootPath calls ++ answersTo fs rootPath calls' :=
  List.flatMap_append

/-- A call is for one of the requests that were asked. -/
theorem regular_of_call {fs : FileSystem} {rootPath : Bytes} {b : Browsing server}
    (hreach : (Browsing.system server).Reachable b)
    (hregular : ∀ r ∈ b.asked, Regular fs rootPath r.message.path) {calls : List HttpEffect}
    {m : RequestMessage} {content : Bytes}
    (hcalls : resourceCalls b.link.connection.log = calls ++ [.resource m content]) :
    Regular fs rootPath m.path := by
  obtain ⟨before, after, hasked, hbefore, -⟩ := (Browsing.stage_reachable hreach).calls_first
  have hmem : HttpEffect.resource m content ∈ before.map PlainRequest.call := by
    rw [← hbefore, hcalls]
    simp
  obtain ⟨r, hr, hcall⟩ := List.mem_map.mp hmem
  obtain ⟨hmessage, -⟩ := HttpEffect.resource.inj hcall
  have hregular := hregular r (by rw [hasked]; exact List.mem_append_left _ hr)
  rwa [hmessage] at hregular

/-- The loader keeps its root. -/
theorem handle_rootPath (loader : ResourceLoader) (fs : FileSystem) (path : Bytes) :
    (loader.handle fs path).loader.rootPath = loader.rootPath := by
  unfold ResourceLoader.handle
  split
  · simp only [ResourceLoader.streamFile, ResourceLoader.readAndSend_eq]
    rfl
  · rfl

theorem goOn_browsing (fs : FileSystem) (s : Loading server) (b : Browsing server) :
    (goOn fs s b).browsing = b := by
  unfold goOn
  split
  · rfl
  · rfl

theorem goOn_rootPath (fs : FileSystem) (s : Loading server) (b : Browsing server) :
    (goOn fs s b).loader.rootPath = s.loader.rootPath := by
  unfold goOn
  split
  · exact handle_rootPath s.loader fs _
  · rfl

theorem goOn_cut (fs : FileSystem) (s : Loading server) (b : Browsing server) :
    (goOn fs s b).cut = s.cut := by
  unfold goOn
  split
  · rfl
  · rfl

/-- While no answer is being written, the session goes on and may call the loader. -/
theorem phase_goOn {fs : FileSystem} {rootPath : Bytes} {s : Loading server}
    {b : Browsing server} (hroot : s.loader.rootPath = rootPath)
    (hreach : (Browsing.system server).Reachable b)
    (hregular : ∀ r ∈ b.asked, Regular fs rootPath r.message.path)
    (transfer : s.transfer = none)
    (sent : s.sent = answersTo fs rootPath (resourceCalls s.browsing.link.connection.log))
    (hproceeds : Proceeds s.browsing.link.connection b.link.connection) :
    Phase fs rootPath (goOn fs s b) := by
  unfold goOn
  -- the loader is called in the step in which the session finds the request
  cases hproceeds with
  | stays session calls =>
      split
      · rename_i m hresponding _
        exact absurd hresponding (session m)
      · refine .idle transfer session ?_
        rw [calls]
        exact sent
  | calls m content session calls =>
      rw [session, transfer]
      have hpath := regular_of_call hreach hregular calls
      rw [← hroot] at hpath
      have hstart := answering_start hpath
      rw [hroot] at hstart
      exact .answering _ _ m content rfl session calls sent hstart

/-- While one is being written, only the browser goes on. -/
theorem phase_goOn_answering {fs : FileSystem} {rootPath : Bytes} {s : Loading server}
    {b : Browsing server} {t : Transfer} {calls : List HttpEffect} {m : RequestMessage}
    {content : Bytes} (transfer : s.transfer = some t)
    (hsame : b.link.connection = s.browsing.link.connection)
    (session : s.browsing.link.connection.session = .responding m)
    (logged : resourceCalls s.browsing.link.connection.log = calls ++ [.resource m content])
    (sent : s.sent = answersTo fs rootPath calls)
    (answering : Answering (answerOf fs rootPath m.path) t) :
    Phase fs rootPath (goOn fs s b) := by
  have hgo : goOn fs s b = { s with browsing := b } := by
    unfold goOn
    split
    · rename_i hnone
      rw [transfer] at hnone
      cases hnone
    · rfl
  rw [hgo]
  refine .answering t calls m content transfer ?_ ?_ sent answering
  · rw [← session]
    exact congrArg HttpConnection.session hsame
  · rw [← logged]
    exact congrArg (fun c => resourceCalls c.log) hsame

theorem sound_before {fs : FileSystem} {rootPath : Bytes} {s s' : Loading server}
    (h : Sound fs rootPath s') (hcut : s'.cut = false → s.cut = false)
    (hasked : s.browsing.asked <+: s'.browsing.asked) : Sound fs rootPath s :=
  ⟨hcut h.1, fun r hr => h.2 r (hasked.subset hr)⟩

theorem inv_goOn {fs : FileSystem} {rootPath : Bytes} {s : Loading server} {b : Browsing server}
    {a : Browsing.Action} (h : Inv fs rootPath s) (hstep : Browsing.step s.browsing a = some b)
    (hcalm : s.transfer ≠ none → a ≠ .server .responded ∧ a ≠ .server .stop
      ∧ ∀ ec, a ≠ .server (.fail ec)) : Inv fs rootPath (goOn fs s b) := by
  have hreach : (Browsing.system server).Reachable b := h.browsing.tail hstep
  refine ⟨?_, ?_, ?_⟩
  · rw [goOn_browsing]
    exact hreach
  · rw [goOn_rootPath]
    exact h.root
  · intro hsound
    have hregular := hsound.2
    rw [goOn_browsing] at hregular
    have hbefore : Sound fs rootPath s := by
      refine sound_before hsound ?_ ?_
      · rw [goOn_cut]
        exact id
      · rw [goOn_browsing]
        exact asked_grows hstep
    cases h.phase hbefore with
    | idle transfer session sent =>
        exact phase_goOn h.root hreach hregular transfer sent (proceeds_browse session hstep)
    | answering t calls m content transfer session logged sent answering =>
        have hsame := browse_responding session (hcalm (by rw [transfer]; simp)) hstep
        exact phase_goOn_answering transfer hsame session logged sent answering

/-- The session does not change with the transfer, and the loader keeps its root. -/
theorem transferStep_keeps {s s' : Loading server} {a : StreamAction Unit}
    (hstep : transferStep s a = some s') :
    s'.browsing = s.browsing ∧ s'.loader.rootPath = s.loader.rootPath ∧ s'.sent = s.sent
      ∧ s'.cut = s.cut := by
  obtain ⟨streaming, hstreaming, rfl⟩ := Option.map_eq_some_iff.mp hstep
  refine ⟨rfl, ?_, rfl, rfl⟩
  cases Streaming.step_cases hstreaming <;> rfl

theorem finish_eq {s s' : Loading server} {a : HttpLink.Action} (hstep : finish s a = some s') :
    ∃ b, Browsing.step s.browsing (.server a) = some b
      ∧ s' = { s with browsing := b, sent := s.onSocket, transfer := none } := by
  obtain ⟨b, hb, rfl⟩ := Option.map_eq_some_iff.mp hstep
  exact ⟨b, hb, rfl⟩

theorem inv_cut {fs : FileSystem} {rootPath : Bytes} {s : Loading server}
    (hreach : (Browsing.system server).Reachable s.browsing)
    (hroot : s.loader.rootPath = rootPath) (hcut : s.cut = true) : Inv fs rootPath s :=
  ⟨hreach, hroot, fun hsound => absurd (hcut.symm.trans hsound.1) nofun⟩

theorem inv_complete {fs : FileSystem} {rootPath : Bytes} {s s' : Loading server}
    (h : Inv fs rootPath s) (hstep : transferStep s (.complete () none) = some s') :
    Inv fs rootPath s' := by
  obtain ⟨hbrowsing, hroot, hsent, hcut⟩ := transferStep_keeps hstep
  refine ⟨hbrowsing ▸ h.browsing, hroot.trans h.root, ?_⟩
  intro hsound
  have hbefore : Sound fs rootPath s := by
    refine sound_before hsound ?_ ?_
    · rw [hcut]
      exact id
    · rw [hbrowsing]
  obtain ⟨streaming, hstreaming, rfl⟩ := Option.map_eq_some_iff.mp hstep
  cases h.phase hbefore with
  | idle transfer session sent =>
      rw [transfer] at hstreaming
      cases hstreaming
  | answering t calls m content transfer session logged sent answering =>
      rw [transfer] at hstreaming
      obtain ⟨t', ht', hanswering⟩ := answering_complete answering hstreaming
      exact .answering t' calls m content ht' session logged sent hanswering

/-- The handler of the last write reads the next request, or ends the session. -/
theorem inv_release {fs : FileSystem} {rootPath : Bytes} {s t s' : Loading server}
    (h : Inv fs rootPath s) (htransfer : transferStep s (.release () none) = some t)
    (hfinish : finish t .responded = some s') : Inv fs rootPath s' := by
  obtain ⟨hbrowsing, hroot, hsent, hcut⟩ := transferStep_keeps htransfer
  obtain ⟨b, hb, rfl⟩ := finish_eq hfinish
  rw [hbrowsing] at hb
  have hreach : (Browsing.system server).Reachable b :=
    h.browsing.tail (a := .server .responded) hb
  refine ⟨hreach, hroot.trans h.root, ?_⟩
  intro hsound
  have hbefore : Sound fs rootPath s := by
    refine sound_before hsound ?_ (asked_grows hb)
    dsimp only
    rw [hcut]
    exact id
  obtain ⟨streaming, hstreaming, rfl⟩ := Option.map_eq_some_iff.mp htransfer
  cases h.phase hbefore with
  | idle transfer session sent =>
      rw [transfer] at hstreaming
      cases hstreaming
  | answering u calls m content transfer session logged sent answering =>
      rw [transfer] at hstreaming
      obtain ⟨u', hu', hsocket⟩ := answering_release answering hstreaming
      obtain ⟨link, hlink, rfl⟩ := Option.map_eq_some_iff.mp hb
      obtain ⟨m', hresponding, rfl⟩ := HttpLink.responded_eq_some hlink
      obtain rfl : m' = m := Session.responding.inj (hresponding.symm.trans session)
      have hlog : (s.browsing.link.connection.responded server m').log
          = s.browsing.link.connection.log := by
        unfold responded
        split
        · rfl
        · rfl
      refine .idle rfl ?_ ?_
      · dsimp only
        unfold responded
        split
        · exact nofun
        · exact nofun
      · dsimp only
        -- the last answer is complete, and goes to those before it
        rw [hlog, logged, answersTo_append, ← sent, onSocket]
        dsimp only
        rw [hu']
        dsimp only
        rw [hsocket]
        simp [answersTo]

/-- The server is going away: what is being written is cut off. -/
theorem inv_stop {fs : FileSystem} {rootPath : Bytes} {s s' : Loading server}
    (h : Inv fs rootPath s) (hfinish : finish s .stop = some s') :
    Inv fs rootPath { s' with cut := s.cut || s.transfer.isSome } := by
  obtain ⟨b, hb, rfl⟩ := finish_eq hfinish
  have hreach : (Browsing.system server).Reachable b := h.browsing.tail (a := .server .stop) hb
  refine ⟨hreach, h.root, ?_⟩
  rintro ⟨hcut, hregular⟩
  obtain ⟨hbefore, hnone⟩ := Bool.or_eq_false_iff.mp hcut
  have hsound : Sound fs rootPath s :=
    ⟨hbefore, fun r hr => hregular r ((asked_grows hb).subset hr)⟩
  cases h.phase hsound with
  | answering t _ _ _ transfer _ _ _ _ =>
      rw [transfer] at hnone
      cases hnone
  | idle transfer session sent =>
      obtain ⟨link, hlink, rfl⟩ := Option.map_eq_some_iff.mp hb
      obtain ⟨-, ⟨⟩⟩ := Option.ite_none_right_eq_some.mp hlink
      refine .idle rfl nofun ?_
      simp only [onSocket, transfer, List.append_nil]
      exact sent

theorem inv_step {fs : FileSystem} {rootPath : Bytes} {s s' : Loading server} {a : Action}
    (h : Inv fs rootPath s) (hstep : step fs s a = some s') : Inv fs rootPath s' := by
  -- the session may go on by itself only while no answer is being written
  cases a with
  | browse a =>
      cases a with
      | ask =>
          obtain ⟨b, hb, rfl⟩ := Option.map_eq_some_iff.mp hstep
          exact inv_goOn h hb fun _ => ⟨nofun, nofun, nofun⟩
      | deliver n =>
          obtain ⟨b, hb, rfl⟩ := Option.map_eq_some_iff.mp hstep
          exact inv_goOn h hb fun _ => ⟨nofun, nofun, nofun⟩
      | server a =>
          cases a with
          | arrive bytes => cases hstep
          | responded => cases hstep
          | complete n =>
              obtain ⟨b, hb, rfl⟩ := Option.map_eq_some_iff.mp hstep
              exact inv_goOn h hb fun _ => ⟨nofun, nofun, nofun⟩
          | fail ec =>
              simp only [step] at hstep
              split at hstep
              · cases hstep
              · rename_i transfer
                obtain ⟨b, hb, rfl⟩ := Option.map_eq_some_iff.mp hstep
                exact inv_goOn h hb fun hne => absurd transfer hne
          | stop =>
              obtain ⟨t, ht, rfl⟩ := Option.map_eq_some_iff.mp hstep
              exact inv_stop h ht
  | complete ec =>
      obtain ⟨t, ht, rfl⟩ := Option.map_eq_some_iff.mp hstep
      obtain ⟨hbrowsing, hroot, -, hcut⟩ := transferStep_keeps ht
      cases ec with
      | none =>
          have heq :
              ({ t with cut := s.cut || (none : Option Nat).isSome } : Loading server) = t := by
            rw [Option.isSome_none, Bool.or_false, ← hcut]
          rw [heq]
          exact inv_complete h ht
      | some k => exact inv_cut (hbrowsing ▸ h.browsing) (hroot.trans h.root) (Bool.or_true _)
  | release ec =>
      match ec with
      | none =>
          obtain ⟨t, ht, hfinish⟩ := Option.bind_eq_some_iff.mp hstep
          exact inv_release h ht hfinish
      | some (ec, k) =>
          obtain ⟨t, ht, hfinish⟩ := Option.bind_eq_some_iff.mp hstep
          obtain ⟨hbrowsing, hroot, -, -⟩ := transferStep_keeps ht
          obtain ⟨u, hu, rfl⟩ := Option.map_eq_some_iff.mp hfinish
          obtain ⟨b, hb, rfl⟩ := finish_eq hu
          rw [hbrowsing] at hb
          have hreach : (Browsing.system server).Reachable b :=
            h.browsing.tail (a := .server (.fail ec)) hb
          exact inv_cut hreach (hroot.trans h.root) rfl
  | others loader =>
      obtain ⟨hroot, ⟨⟩⟩ := Option.ite_none_right_eq_some.mp hstep
      refine ⟨h.browsing, hroot.trans h.root, ?_⟩
      intro hsound
      cases h.phase hsound with
      | idle transfer session sent => exact .idle transfer session sent
      | answering t calls m content transfer session logged sent answering =>
          exact .answering t calls m content transfer session logged sent answering

theorem inv_reachable {fs : FileSystem} {rootPath : Bytes} {s : Loading server}
    (h : (system server fs rootPath).Reachable s) : Inv fs rootPath s := by
  refine System.Reachable.invariant (P := Inv fs rootPath) ?_ ?_ h
  · rintro s ⟨todo, rfl⟩
    exact ⟨.init ⟨todo, rfl⟩, rfl, fun _ => .idle rfl nofun rfl⟩
  · exact fun s a s' _ hs hstep => inv_step hs hstep

/-! ## What the browser gets -/

/-- The answers to requests, as they are written. -/
def answers (fs : FileSystem) (rootPath : Bytes) (requests : List (PlainRequest server)) : Bytes :=
  requests.flatMap fun r => answerOf fs rootPath r.message.path

/-- And as they are read. -/
def expected (fs : FileSystem) (rootPath : Bytes) (r : PlainRequest server) : Answered :=
  let (status, content) := contentOf fs rootPath r.message.path
  (status.text, [(utf8 "Content-Length", natDigits content.length)], content)

/-- What a browser can tell the length of. -/
def Short (fs : FileSystem) (rootPath : Bytes) (r : PlainRequest server) : Prop :=
  (contentOf fs rootPath r.message.path).2.length < 2 ^ 64

theorem answersTo_calls (fs : FileSystem) (rootPath : Bytes)
    (requests : List (PlainRequest server)) :
    answersTo fs rootPath (requests.map PlainRequest.call) = answers fs rootPath requests := by
  rw [answersTo, List.flatMap_map]
  rfl

/-- An answer with nothing but its length in the header. -/
def plainAnswer (status : StatusCode) {content : Bytes} (h : content.length < 2 ^ 64) :
    Written where
  status := status
  content := content
  header := []
  writable := nofun
  unsized := nofun
  small := h

/-- Answers are texts that can be read back. -/
theorem written_answers {fs : FileSystem} {rootPath : Bytes} {requests : List (PlainRequest server)}
    (hshort : ∀ r ∈ requests, Short fs rootPath r) :
    ∃ texts : List Written, texts.length = requests.length
      ∧ texts.flatMap Written.text = answers fs rootPath requests
      ∧ texts.map Written.answered = requests.map (expected fs rootPath) := by
  induction requests with
  | nil => exact ⟨[], rfl, rfl, rfl⟩
  | cons r requests ih =>
      obtain ⟨texts, hlength, htext, hanswered⟩ := ih fun r' hr' =>
        hshort r' (List.mem_cons_of_mem r hr')
      refine ⟨plainAnswer (contentOf fs rootPath r.message.path).1
        (hshort r (List.mem_cons_self ..)) :: texts, by simp [hlength], ?_, ?_⟩
      · rw [List.flatMap_cons, htext]
        rfl
      · rw [List.map_cons, hanswered]
        rfl

/-- The program has nothing to do, if nothing fails. -/
def AtRest (fs : FileSystem) (s : Loading server) : Prop :=
  (∀ n, step fs s (.browse (.server (.complete n))) = none) ∧ step fs s (.complete none) = none
    ∧ step fs s (.release none) = none

/-- While an answer is being written there is something to do. -/
theorem idle_of_rest {fs : FileSystem} {rootPath : Bytes} {s : Loading server}
    (h : Phase fs rootPath s) (hrest : AtRest fs s) :
    s.transfer = none ∧ (∀ m, s.browsing.link.connection.session ≠ .responding m)
      ∧ s.sent = answersTo fs rootPath (resourceCalls s.browsing.link.connection.log) := by
  obtain ⟨-, hcomplete, hrelease⟩ := hrest
  cases h with
  | idle transfer session sent => exact ⟨transfer, session, sent⟩
  | answering t calls m content transfer session logged sent answering =>
      rcases answering_enabled answering s.loader with ⟨s', hs'⟩ | ⟨s', hs'⟩
      · simp [step, transferStep, transfer, hs'] at hcomplete
      · simp [step, transferStep, transfer, hs', finish, Browsing.step, HttpLink.step, session]
          at hrelease

/--
**A browser gets the files it asks for**, over one connection, one after the other. The
socket never has anything but the beginning of the answers to the requests, in their
order, whatever other connections do with the loader and however the requests are cut.
When all requests have arrived, nothing is left to do and the connection is alive, the
browser reads the content of each file, or the text of its error, and nothing more.
-/
theorem pages_loaded {fs : FileSystem} {rootPath : Bytes} {s : Loading server}
    (h : (system server fs rootPath).Reachable s) (hsound : Sound fs rootPath s)
    (hshort : ∀ r ∈ s.browsing.asked, Short fs rootPath r) :
    s.onSocket <+: answers fs rootPath s.browsing.asked
      ∧ (s.browsing.outstanding = [] → AtRest fs s → ¬ Browsing.Over s.browsing.link.connection →
          readAnswers s.browsing.asked.length s.onSocket
            = some (s.browsing.asked.map (expected fs rootPath), [])) := by
  have hinv := inv_reachable h
  have hstage := Browsing.stage_reachable hinv.browsing
  have hphase := hinv.phase hsound
  refine ⟨?_, ?_⟩
  · obtain ⟨before, after, hasked, hcalls, -⟩ := hstage.calls_first
    have hanswers : answers fs rootPath before <+: answers fs rootPath s.browsing.asked := by
      rw [hasked, answers, answers, List.flatMap_append]
      exact List.prefix_append _ _
    rw [← answersTo_calls, ← hcalls] at hanswers
    refine List.IsPrefix.trans ?_ hanswers
    cases hphase with
    | idle transfer session sent => simp [onSocket, transfer, sent]
    | answering t calls m content transfer session logged sent answering =>
        have hone : answersTo fs rootPath [.resource m content] = answerOf fs rootPath m.path := by
          simp [answersTo]
        rw [logged, answersTo_append, hone, onSocket, transfer, sent]
        exact (List.prefix_append_right_inj _).mpr answering.socket_prefix
  · intro hempty hrest halive
    obtain ⟨transfer, session, sent⟩ := idle_of_rest hphase hrest
    -- nothing to do for the program means nothing to read for the session
    have hquiet : HttpLink.Quiet server s.browsing.link := by
      intro n
      have hnone := hrest.1 n
      simpa [step, Browsing.step, HttpLink.step] using hnone
    have hcalls := hstage.calls_of_rest hempty hquiet session halive
    obtain ⟨texts, hlength, htext, hanswered⟩ := written_answers hshort
    have hread := readAnswers_texts texts []
    rw [hlength, htext, hanswered, List.append_nil] at hread
    rw [onSocket, transfer, sent, hcalls, answersTo_calls]
    dsimp only
    rw [List.append_nil]
    exact hread

/-! ## Two files, one of which is not there -/

/-- Where directories cannot be opened, no path leads to one in the place of a file. -/
theorem regular_of_directorySize {fs : FileSystem} (h : fs.directorySize = none)
    (rootPath path : Bytes) : Regular fs rootPath path := by
  intro place ifs hopen
  obtain ⟨webRootPath, found, -, -, -, hpath⟩ := openTarget_eq_ok_iff.mp hopen
  unfold FileSystem.openPath at hpath
  split at hpath
  · obtain ⟨opened, hopened, heq⟩ := Option.map_eq_some_iff.mp hpath
    obtain ⟨-, rfl⟩ := Prod.mk.inj heq
    unfold FileSystem.openAt at hopened
    split at hopened
    · obtain ⟨-, hfile⟩ := Option.ite_none_right_eq_some.mp hopened
      rw [← Option.some.inj hfile]
      rfl
    · rw [h] at hopened
      cases hopened
    · cases hopened
  · cases hpath

/-- `/srv/www` with an `index.html`. -/
def site : FileSystem where
  top := .dir [(utf8 "srv", .dir [(utf8 "www", .dir [(indexHtml, .file ⟨utf8 "Moba", true⟩)])])]
  top_isDir := rfl
  cwd := []
  maxLinks := 40
  directorySize := none
  what := fun _ _ => utf8 "No such file or directory"

/-- The second request comes in while the first answer is being written. -/
def pageAndScript : List Action :=
  [.browse .ask, .browse (.deliver 18), .browse (.server (.complete 18)), .browse .ask,
    .browse (.deliver 5), .release none, .browse (.deliver 17), .browse (.server (.complete 22)),
    .release none]

theorem pages_loaded_site :
    ∃ s : Loading httpServer, (system httpServer site (utf8 "/srv/www")).run
        { browsing := { todo := [Browsing.page, Browsing.script] }
          loader := .make (utf8 "/srv/www") }
        pageAndScript = some s
      ∧ (readAnswers 2 s.onSocket).map
          (fun read => (read.1.map fun answered => answered.2.2, read.2))
        = some ([utf8 "Moba",
            utf8 "Could not open path /a.js: No such file or directory"], []) := by
  have hend : ((system httpServer site (utf8 "/srv/www")).run
      { browsing := { todo := [Browsing.page, Browsing.script] }
        loader := .make (utf8 "/srv/www") } pageAndScript).map
          (fun s => (s.browsing.link, s.browsing.outstanding, s.cut, s.transfer.isNone,
            s.browsing.asked.map fun r => r.message.path))
        = some (⟨⟨.header [], [Browsing.page.call, Browsing.script.call], false⟩, []⟩, [], false,
            true, [utf8 "/", utf8 "/a.js"]) := by
    decide +kernel
  obtain ⟨s, hrun, hs⟩ := Option.map_eq_some_iff.mp hend
  obtain ⟨hlink, hs⟩ := Prod.mk.inj hs
  obtain ⟨houtstanding, hs⟩ := Prod.mk.inj hs
  obtain ⟨hcut, hs⟩ := Prod.mk.inj hs
  obtain ⟨htransfer, hasked⟩ := Prod.mk.inj hs
  have hnone : s.transfer = none := Option.isNone_iff_eq_none.mp htransfer
  have hstart : (system httpServer site (utf8 "/srv/www")).init
      { browsing := { todo := [Browsing.page, Browsing.script] },
        loader := .make (utf8 "/srv/www") } := ⟨_, rfl⟩
  have hshort : ∀ path ∈ [utf8 "/", utf8 "/a.js"],
      (contentOf site (utf8 "/srv/www") path).2.length < 2 ^ 64 := by
    decide +kernel
  have hrest : AtRest site s := by
    refine ⟨?_, ?_, ?_⟩
    · intro n
      have hquiet : HttpLink.complete httpServer s.browsing.link n = none := by
        rw [hlink]
        simp only [HttpLink.complete, wait, List.take_nil]
        exact if_neg (fun h => absurd h.2 (by decide))
      simp [step, Browsing.step, HttpLink.step, hquiet]
    · simp [step, transferStep, hnone, Streaming.step]
    · simp [step, transferStep, hnone, Streaming.step]
  have halive : ¬ Browsing.Over s.browsing.link.connection := by
    rw [hlink]
    rintro (h | ⟨request, h⟩)
    · cases h
    · cases h
  have hloaded := pages_loaded (System.Reachable.run (.init hstart) hrun)
    ⟨hcut, fun r _ => regular_of_directorySize rfl _ r.message.path⟩
    (fun r hr => hshort r.message.path (by rw [← hasked]; exact List.mem_map_of_mem hr))
  have hread := hloaded.2 houtstanding hrest halive
  have hlength : s.browsing.asked.length = 2 := by
    have hlen := congrArg List.length hasked
    simpa using hlen
  rw [hlength] at hread
  refine ⟨s, hrun, ?_⟩
  have hcontents : s.browsing.asked.map (fun r => (expected site (utf8 "/srv/www") r).2.2)
      = [utf8 "/", utf8 "/a.js"].map fun path => (contentOf site (utf8 "/srv/www") path).2 := by
    rw [← hasked, List.map_map]
    rfl
  have htexts : [utf8 "/", utf8 "/a.js"].map (fun path => (contentOf site (utf8 "/srv/www") path).2)
      = [utf8 "Moba", utf8 "Could not open path /a.js: No such file or directory"] := by
    decide +kernel
  rw [hread, Option.map_some, List.map_map]
  exact congrArg (fun texts => some (texts, [])) (hcontents.trans htexts)

end Loading

end MobaDisplay
