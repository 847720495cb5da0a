import Http2Server.Hpack.Encode
import Http2Server.Session

/-!
# Frame handlers

`FrameHandler`: what each frame does to a session. An exception inside
`processEndHeader` is caught there, so only `abort` gets past `handleFrame`.
-/

namespace Http2Server.FrameHandler

open Hpack

/-- The HEADERS frame of a response and the DATA frame with its body. -/
def responseFrames (sid : Nat) (block body : Bytes) : Response :=
  Response.addFrame
    (Response.addFrame {} { type := FrameType.headers.code, flags := Flag.endHeaders, sid,
                            payload := block })
    { type := FrameType.data.code, flags := Flag.endStream, sid, payload := body }

/-- The buffers of a response. `none` is a call to `abort`. -/
def responseBuffers (sid : Nat) (headers : Headers) (body : Bytes) : Option (List Bytes) :=
  (Encoder.new.encodeAll headers).bind fun block =>
    (responseFrames sid block body).processFrames.encodeFrames

/-- The part `respondGet` and `showErrorPage` share. -/
def sendResponse (env : Env) (s : Session) (strm : Stream) (headers : Headers) (body : Bytes) :
    Exit × Session :=
  match responseBuffers strm.id headers body with
  | none => (.aborted, s)
  | some buffers =>
    let (ok, s) := sendAll env strm.weight buffers s
    (.returned ok, s)

def okHeaders (path : Bytes) (content : ResponseData) : Headers :=
  [⟨ascii ":status", ascii "200"⟩, ⟨ascii "cache-control", ascii "private"⟩,
   ⟨ascii "content-type", content.mimeType⟩,
   ⟨ascii "content-length", decimal content.data.length⟩,
   ⟨ascii "location", path⟩, ⟨ascii "server", ascii "HTTP2Server/1.0"⟩]

def errorHeaders (errorCode : Nat) (content : ResponseData) : Headers :=
  [⟨ascii ":status", decimal errorCode⟩, ⟨ascii "cache-control", ascii "private"⟩,
   ⟨ascii "content-type", content.mimeType⟩,
   ⟨ascii "content-length", decimal content.data.length⟩,
   ⟨ascii "server", ascii "HTTP2Server/1.0"⟩]

def respondGet (env : Env) (s : Session) (strm : Stream) : Exit × Session :=
  let s := s.log (.respondGet strm.id)
  match strm.headers.first (ascii ":path") with
  | none => (.returned false, s)
  | some path =>
    match env.binder.getContent env.files path with
    | none => (.threw, s)
    | some content =>
      if content.data = [] then (.returned false, s)
      else sendResponse env s strm (okHeaders path content) content.data

def showErrorPage (env : Env) (s : Session) (strm : Stream) (errorCode : Nat) : Exit × Session :=
  let content := WebBinder.getErrorPage errorCode
  if content.data = [] then (.returned false, s)
  else sendResponse env s strm (errorHeaders errorCode content) content.data

/-- From the call of `respondGet` to the end of the `try`: an error page where
the answer fails, and false for an exception. -/
def serve (env : Env) (s : Session) (strm : Stream) : Exit × Session :=
  match respondGet env s strm with
  | (.returned true, s) => (.returned true, s)
  | (.returned false, s) =>
    match showErrorPage env s strm 404 with
    | (.aborted, s) => (.aborted, s)
    | (_, s) => (.returned false, s)
  | (.threw, s) => (.returned false, s)
  | (.aborted, s) => (.aborted, s)

/-- Works on the stream apart from the map; the result of `decode_lowmem` is
dropped. An exception leaves the fragments and the state as they were. -/
def processEndHeader (env : Env) (s : Session) (strm : Stream) : Exit × Stream × Session :=
  let d := decodeLowmem s.hpackDecoder strm.headerFragments
  let s := { s with hpackDecoder := d.table }
  let strm := { strm with headers := strm.headers ++ d.headers }
  if d.verdict = .threw then (.returned false, strm, s)
  else
    let strm := { strm with state := .halfClosedRemote, endHeader := true, headerFragments := [] }
    let i := s.hpackDecoder.bestMatchName (ascii ":method")
    if i = 0 then (.returned false, strm, s)
    else match s.hpackDecoder.lookup i with
      | none => (.returned false, strm, s)
      | some header =>
        if header.value = ascii "GET" then
          match strm.headers.first (ascii ":path") with
          | none => (.returned false, strm, s)
          | some _ =>
            let (e, s) := serve env s strm
            (e, strm, s)
        else (.returned true, strm, s)

def handleDataFrame (s : Session) (f : Frame) : Exit × Session :=
  match s.streams f.sid with
  | none => (.returned false, s)
  | some strm =>
    if strm.state ≠ .open then (.returned false, s)
    else (.returned true, s.setStream f.sid
      { strm with
        data := strm.data ++ f.payload
        endStream := f.hasFlag Flag.endStream
        endHeader := f.hasFlag Flag.endHeaders })

/-- The stream a HEADERS frame adds its fragment to, with the fragment. -/
def openStream (s : Session) (f : Frame) : Stream :=
  let strm := (s.streams f.sid).getD { id := f.sid }
  { strm with
    state := .open
    endHeader := f.hasFlag Flag.endHeaders
    endStream := f.hasFlag Flag.endStream
    headerFragments := strm.headerFragments ++ f.payload }

/-- `ok |= processEndHeader(...)` never turns `ok` to false. -/
def handleHeadersFrame (env : Env) (s : Session) (f : Frame) : Exit × Session :=
  let strm := openStream s f
  let (e, strm, s) :=
    if f.hasFlag Flag.endHeaders then processEndHeader env s strm
    else (.returned true, strm, s)
  if e = .aborted then (.aborted, s)
  else (.returned true,
    if f.hasFlag Flag.endStream then s.eraseStream f.sid else s.setStream f.sid strm)

/-- A known stream with a CONTINUATION frame's fragment. -/
def continueStream (strm : Stream) (f : Frame) : Stream :=
  { strm with
    headerFragments := strm.headerFragments ++ f.payload
    endHeader := f.hasFlag Flag.endHeaders
    endStream := f.hasFlag Flag.endStream }

def handleContinuationFrame (env : Env) (s : Session) (f : Frame) : Exit × Session :=
  match s.streams f.sid with
  | none => (.returned false, s)
  | some strm =>
    if strm.state ≠ .open ∧ strm.state ≠ .halfClosedRemote then (.returned false, s)
    else if f.hasFlag Flag.endHeaders then
      let (e, strm, s) := processEndHeader env s (continueStream strm f)
      (e, s.setStream f.sid strm)
    else (.returned true, s.setStream f.sid (continueStream strm f))

def handlePriorityFrame (s : Session) (f : Frame) : Exit × Session :=
  match s.streams f.sid with
  | none => (.returned false, s)
  | some strm =>
    if f.hasPriority = false then (.returned false, s)
    else (.returned true, s.setStream f.sid
      { strm with
        weight := toChar f.weight
        dependency := toInt f.streamDependency
        exclusive := f.exclusive })

def handleResetFrame (s : Session) (f : Frame) : Exit × Session :=
  match s.streams f.sid with
  | none => (.returned false, s)
  | some strm =>
    if strm.state = .closed then (.returned false, s)
    else (.returned true, s.eraseStream f.sid)

def handleSettingsFrame (env : Env) (s : Session) (f : Frame) : Exit × Session :=
  if f.sid ≠ 0 then (.returned false, s)
  else if f.hasFlag Flag.ack = false then ackSettings env s f
  else (.returned true, s)

/-- A PING is answered whether or not it is an acknowledgement itself. -/
def handlePingFrame (env : Env) (s : Session) (f : Frame) : Exit × Session :=
  if f.sid ≠ 0 then (.returned false, s)
  else sendFrame env s
    { type := FrameType.ping.code, flags := Flag.ack, payload := f.payload } 0

def handleGoAwayFrame (s : Session) : Exit × Session :=
  (.returned true, { s with streams := fun _ => none, errorCode := 0, fdState := .closed })

/-- The `switch` of `handleFrame`. -/
def dispatch (env : Env) (s : Session) (f : Frame) : Exit × Session :=
  match FrameType.ofCode f.type with
  | some .data => handleDataFrame s f
  | some .headers => handleHeadersFrame env s f
  | some .priority => handlePriorityFrame s f
  | some .rstStream => handleResetFrame s f
  | some .settings => handleSettingsFrame env s f
  | some .pushPromise => (.returned true, s)
  | some .ping => handlePingFrame env s f
  | some .goAway => handleGoAwayFrame s
  | some .windowUpdate => (.returned true, s)
  | some .continuation => handleContinuationFrame env s f
  | none => (.returned false, s)

def handleFrame (env : Env) (s : Session) (f : Frame) : Exit × Session :=
  dispatch env (s.log (.handleFrame f)) f

/-- The loop over the frames of a read; results are only logged. -/
def handleFrames (env : Env) : List Frame → Session → Exit × Session
  | [], s => (.returned true, s)
  | f :: rest, s =>
    match handleFrame env s f with
    | (.returned _, s) => handleFrames env rest s
    | (e, s) => (e, s)

end Http2Server.FrameHandler
