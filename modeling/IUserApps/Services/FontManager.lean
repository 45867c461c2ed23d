import IUserApps.Services.Daemon

/-!
# The font manager

`main` of `font-manager`: a loop that answers four kinds of requests, each by a builder of its own.
A builder checks the request and says in its reply what is wrong with it. Only a payload that is
shorter than the request leads to no reply, and then the loop ends, just as it does when a reply
cannot be sent. So the font manager serves every client along a run exactly when no client sends a
request that is cut short, and so does `service_daemon::run` (`servesAlong_iff`).

The font library is not part of this repository, and measures in floating point: `Truetype` is what
the builders ask of it.
-/

namespace IUserApps.Services.FontManager

open Serving Runs

/-- A picture of a character, row by row. -/
structure Bitmap where
  width : ℤ
  height : ℤ
  pixels : List Byte

/-- The font library on the font that is loaded. Sizes are in pixels. -/
class Truetype where
  ascent : ℤ
  descent : ℤ
  lineGap : ℤ
  /-- `scaled_ceil` by `scale_for_height`. -/
  scaledCeil : ℤ → ℕ → ℤ
  /-- The advance of a character. -/
  advance : ℤ → ℤ
  /-- The box of a character: `x0`, `y0`, `x1` and `y1`. -/
  bitmapBox : ℤ → ℕ → ℤ × ℤ × ℤ × ℤ
  bitmap : ℤ → ℕ → Option Bitmap

/-- The font manager's part of the protocol. -/
class FontProtocol extends Protocol where
  fontManager : Interface
  opGetFontInfo : ℕ
  opGetGlyphMetrics : ℕ
  opGetGlyphRow : ℕ
  fontInfoRequestSize : ℕ
  glyphMetricsRequestSize : ℕ
  glyphRowRequestSize : ℕ
  /-- `pixelHeight` of a `FontInfoRequest`. -/
  fontInfoHeight : List Byte → ℕ
  /-- `codepoint` and `pixelHeight` of a `GlyphMetricsRequest`. -/
  glyphMetrics : List Byte → ℕ × ℕ
  /-- `codepoint`, `pixelHeight` and `row` of a `GlyphRowRequest`. -/
  glyphRow : List Byte → ℕ × ℕ × ℕ
  defaultPixelHeight : ℕ
  maxGlyphRowPixels : ℕ
  /-- The font manager's name. -/
  name : String
  familySize : ℕ

/-- A request for the measures of the font. -/
structure FontInfoRequest where
  header : MessageHeader
  pixelHeight : ℕ

/-- A request for the measures of a glyph. -/
structure GlyphMetricsRequest where
  header : MessageHeader
  codepoint : ℕ
  pixelHeight : ℕ

/-- A request for a row of a glyph's pixels. -/
structure GlyphRowRequest where
  header : MessageHeader
  codepoint : ℕ
  pixelHeight : ℕ
  row : ℕ

/-- The measures of the font. -/
structure FontInfoReply where
  header : MessageHeader
  status : Status
  pixelHeight : ℕ
  ascent : ℤ
  descent : ℤ
  lineGap : ℤ
  baseline : ℤ
  lineHeight : ℤ
  cellWidth : ℤ
  family : String
deriving DecidableEq, Repr

/-- The measures of a glyph. -/
structure GlyphMetricsReply where
  header : MessageHeader
  status : Status
  codepoint : ℕ
  pixelHeight : ℕ
  width : ℤ
  height : ℤ
  xOffset : ℤ
  yOffset : ℤ
  advance : ℤ
deriving DecidableEq, Repr

/-- A row of a glyph's pixels. -/
structure GlyphRowReply where
  header : MessageHeader
  status : Status
  codepoint : ℕ
  row : ℕ
  pixelHeight : ℕ
  width : ℕ
  pixels : List Byte
deriving DecidableEq, Repr

/-- A reply of the font manager. -/
inductive Reply
  | hello (reply : HelloReply)
  | fontInfo (reply : FontInfoReply)
  | glyphMetrics (reply : GlyphMetricsReply)
  | glyphRow (reply : GlyphRowReply)
deriving DecidableEq, Repr

/-- The header of a reply. -/
def Reply.header : Reply → MessageHeader
  | .hello reply => reply.header
  | .fontInfo reply => reply.header
  | .glyphMetrics reply => reply.header
  | .glyphRow reply => reply.header

/-- The status of a reply. -/
def Reply.status : Reply → Status
  | .hello reply => reply.status
  | .fontInfo reply => reply.status
  | .glyphMetrics reply => reply.status
  | .glyphRow reply => reply.status

/-- The name of the font. -/
def kFontFamily : String := "JetBrains Mono"

section Builders

variable [FontProtocol]

open FontProtocol

/-- The opcode of a hello. -/
def opHello : ℕ := fontManager.opHello

/-- Reads a request for the measures of the font. -/
def readFontInfoRequest (data : List Byte) : FontInfoRequest :=
  ⟨Protocol.header data, fontInfoHeight data⟩

/-- Reads a request for the measures of a glyph. -/
def readGlyphMetricsRequest (data : List Byte) : GlyphMetricsRequest :=
  ⟨Protocol.header data, (glyphMetrics data).1, (glyphMetrics data).2⟩

/-- Reads a request for a row of a glyph. -/
def readGlyphRowRequest (data : List Byte) : GlyphRowRequest :=
  ⟨Protocol.header data, (glyphRow data).1, (glyphRow data).2.1, (glyphRow data).2.2⟩

/-- The height that a request is answered in. -/
def normalizePixelHeight (pixelHeight : ℕ) : ℕ :=
  if pixelHeight = 0 then defaultPixelHeight
  else if pixelHeight < 6 then 6
  else if 72 < pixelHeight then 72
  else pixelHeight

/-- The status for a header that should have this opcode. -/
def validateHeader (header : MessageHeader) (opcode : ℕ) : Status :=
  if header.version ≠ fontManager.version then .badVersion
  else if header.opcode ≠ opcode then .badOpcode
  else .ok

/-- The header of a reply. -/
def fillCommonHeader (opcode : ℕ) : MessageHeader := ⟨fontManager.version, opcode, 0⟩

/-- The reply to a hello. -/
def buildHelloReply (message : IPCMessage) : Option HelloReply :=
  (decodeMessage fontManager.helloRequestSize Protocol.header message).map fun header =>
    { header := fillCommonHeader opHello
      status := validateHeader header opHello
      serviceName := strncpy name (Protocol.serviceNameSize - 1) }

variable [Truetype]

/-- The measures of the font; `font` says whether it was loaded. -/
def buildFontInfoReply (font : Bool) (message : IPCMessage) : Option FontInfoReply :=
  (decodeMessage fontInfoRequestSize readFontInfoRequest message).map fun request =>
    let status := validateHeader request.header opGetFontInfo
    let refused (status : Status) : FontInfoReply :=
      ⟨fillCommonHeader opGetFontInfo, status, 0, 0, 0, 0, 0, 0, 0, ""⟩
    if status ≠ .ok then refused status
    else if !font then refused .badPayload
    else
      let pixelHeight := normalizePixelHeight request.pixelHeight
      let lineHeight := Truetype.scaledCeil
        (Truetype.ascent - Truetype.descent + Truetype.lineGap) pixelHeight
      let cellWidth := Truetype.scaledCeil (Truetype.advance 'M'.toNat) pixelHeight
      { header := fillCommonHeader opGetFontInfo
        status := .ok
        pixelHeight := pixelHeight
        ascent := Truetype.ascent
        descent := Truetype.descent
        lineGap := Truetype.lineGap
        baseline := Truetype.scaledCeil Truetype.ascent pixelHeight
        lineHeight := if lineHeight ≤ 0 then int32 pixelHeight + 4 else lineHeight
        cellWidth := if cellWidth ≤ 0 then 8 else cellWidth
        family := strncpy kFontFamily (familySize - 1) }

/-- The measures of a character. -/
def buildGlyphMetricsReply (font : Bool) (message : IPCMessage) : Option GlyphMetricsReply :=
  (decodeMessage glyphMetricsRequestSize readGlyphMetricsRequest message).map fun request =>
    let status := validateHeader request.header opGetGlyphMetrics
    let refused (status : Status) : GlyphMetricsReply :=
      ⟨fillCommonHeader opGetGlyphMetrics, status, request.codepoint, 0, 0, 0, 0, 0, 0⟩
    if status ≠ .ok then refused status
    else if !font then refused .badPayload
    else
      let pixelHeight := normalizePixelHeight request.pixelHeight
      let codepoint := int32 request.codepoint
      let (x0, y0, x1, y1) := Truetype.bitmapBox codepoint pixelHeight
      { header := fillCommonHeader opGetGlyphMetrics
        status := .ok
        codepoint := request.codepoint
        pixelHeight := pixelHeight
        width := x1 - x0
        height := y1 - y0
        xOffset := x0
        yOffset := y0
        advance := Truetype.scaledCeil (Truetype.advance codepoint) pixelHeight }

/-- A row of a character's picture. -/
def buildGlyphRowReply (font : Bool) (message : IPCMessage) : Option GlyphRowReply :=
  (decodeMessage glyphRowRequestSize readGlyphRowRequest message).map fun request =>
    let status := validateHeader request.header opGetGlyphRow
    let refused (status : Status) (pixelHeight : ℕ) : GlyphRowReply :=
      ⟨fillCommonHeader opGetGlyphRow, status, request.codepoint, request.row, pixelHeight, 0, []⟩
    if status ≠ .ok then refused status 0
    else if !font then refused .badPayload 0
    else
      let pixelHeight := normalizePixelHeight request.pixelHeight
      match Truetype.bitmap (int32 request.codepoint) pixelHeight with
      | none => refused .badPayload pixelHeight
      | some bitmap =>
        if bitmap.width < 0 ∨ bitmap.height < 0 ∨ int32 maxGlyphRowPixels < bitmap.width ∨
            u32 bitmap.height ≤ request.row then refused .badPayload pixelHeight
        else
          let width := u32 bitmap.width
          { header := fillCommonHeader opGetGlyphRow
            status := .ok
            codepoint := request.codepoint
            row := request.row
            pixelHeight := pixelHeight
            width := width
            pixels := (bitmap.pixels.drop (request.row * width % 2^32)).take width }

/-- The reply to a request, by its opcode. -/
def buildReply (font : Bool) (message : IPCMessage) : Option Reply :=
  let opcode := (Protocol.header message.data).opcode
  if opcode = opHello then (buildHelloReply message).map .hello
  else if opcode = opGetFontInfo then (buildFontInfoReply font message).map .fontInfo
  else if opcode = opGetGlyphMetrics then (buildGlyphMetricsReply font message).map .glyphMetrics
  else if opcode = opGetGlyphRow then (buildGlyphRowReply font message).map .glyphRow
  -- Of any other request no more than the header is read, so it is never too short.
  else some (.hello ⟨fillCommonHeader opHello, .badOpcode, ""⟩)

/-- The loop of `main`. -/
def service (font : Bool) : Service IPCMessage Reply where
  accepts message := message.isRequest && !decide (message.data.length < Protocol.headerSize)
  build := buildReply font

end Builders

/-! ## Requests that are answered -/

section Requests

variable [FontProtocol]

open FontProtocol

/-- The size of the request that has this opcode; of any other no more than its header is read. -/
def requestSize (opcode : ℕ) : ℕ :=
  if opcode = opHello then fontManager.helloRequestSize
  else if opcode = opGetFontInfo then fontInfoRequestSize
  else if opcode = opGetGlyphMetrics then glyphMetricsRequestSize
  else if opcode = opGetGlyphRow then glyphRowRequestSize
  else Protocol.headerSize

/-- A request that has a header is no shorter than its opcode says. -/
def Complete (message : IPCMessage) : Prop :=
  message.isRequest = true → Protocol.headerSize ≤ message.data.length →
    requestSize (Protocol.header message.data).opcode ≤ message.data.length

/-- A request of one of the four kinds and of the right version. -/
structure WellFormed (message : IPCMessage) : Prop where
  isRequest : message.isRequest = true
  headerSize_le : Protocol.headerSize ≤ message.data.length
  size : requestSize (Protocol.header message.data).opcode ≤ message.data.length
  version : (Protocol.header message.data).version = fontManager.version
  opcode : (Protocol.header message.data).opcode = opHello ∨
    (Protocol.header message.data).opcode = opGetFontInfo ∨
    (Protocol.header message.data).opcode = opGetGlyphMetrics ∨
    (Protocol.header message.data).opcode = opGetGlyphRow

/-- The reply is of the request's kind, and blames neither its version nor its opcode. -/
def Answers (message : IPCMessage) (reply : Reply) : Prop :=
  reply.header = fillCommonHeader (Protocol.header message.data).opcode ∧
    (reply.status = .ok ∨ reply.status = .badPayload)

variable [Truetype]

/-- A reply can be built to what is long enough, and to nothing else. -/
theorem buildReply_isSome (font : Bool) {message : IPCMessage}
    (hheader : Protocol.headerSize ≤ message.data.length) :
    (buildReply font message).isSome = true ↔
      requestSize (Protocol.header message.data).opcode ≤ message.data.length := by
  unfold buildReply requestSize
  simp only
  split
  · rw [Option.isSome_map, buildHelloReply, Option.isSome_map]
    exact decodeMessage_isSome
  split
  · rw [Option.isSome_map, buildFontInfoReply, Option.isSome_map]
    exact decodeMessage_isSome
  split
  · rw [Option.isSome_map, buildGlyphMetricsReply, Option.isSome_map]
    exact decodeMessage_isSome
  split
  · rw [Option.isSome_map, buildGlyphRowReply, Option.isSome_map]
    exact decodeMessage_isSome
  · exact ⟨fun _ => hheader, fun _ => rfl⟩

omit [Truetype] in
/-- A header of the right version has its own opcode. -/
theorem validateHeader_ok {header : MessageHeader} (h : header.version = fontManager.version) :
    validateHeader header header.opcode = .ok := by
  unfold validateHeader
  rw [if_neg (by simpa using h), if_neg (by simp)]

omit [Truetype] in
/-- The reply answers the hello. -/
theorem buildHelloReply_answers {message : IPCMessage} {reply : HelloReply}
    (hversion : (Protocol.header message.data).version = fontManager.version)
    (hopcode : (Protocol.header message.data).opcode = opHello)
    (h : buildHelloReply message = some reply) : Answers message (.hello reply) := by
  obtain ⟨header, hheader, rfl⟩ := Option.map_eq_some_iff.1 h
  rw [decodeMessage_some hheader]
  unfold Answers Reply.header Reply.status
  rw [← hopcode]
  exact ⟨rfl, Or.inl (validateHeader_ok hversion)⟩

/-- The reply answers the request for the font. -/
theorem buildFontInfoReply_answers {font : Bool} {message : IPCMessage} {reply : FontInfoReply}
    (hversion : (Protocol.header message.data).version = fontManager.version)
    (hopcode : (Protocol.header message.data).opcode = opGetFontInfo)
    (h : buildFontInfoReply font message = some reply) : Answers message (.fontInfo reply) := by
  obtain ⟨request, hrequest, rfl⟩ := Option.map_eq_some_iff.1 h
  have hok := validateHeader_ok hversion
  rw [hopcode] at hok
  rw [decodeMessage_some hrequest]
  unfold Answers Reply.header Reply.status readFontInfoRequest
  rw [hopcode]
  simp only [hok]
  split
  · exact absurd rfl ‹_›
  split
  · exact ⟨rfl, Or.inr rfl⟩
  · exact ⟨rfl, Or.inl rfl⟩

/-- The reply answers the request for a glyph. -/
theorem buildGlyphMetricsReply_answers {font : Bool} {message : IPCMessage}
    {reply : GlyphMetricsReply}
    (hversion : (Protocol.header message.data).version = fontManager.version)
    (hopcode : (Protocol.header message.data).opcode = opGetGlyphMetrics)
    (h : buildGlyphMetricsReply font message = some reply) :
    Answers message (.glyphMetrics reply) := by
  obtain ⟨request, hrequest, rfl⟩ := Option.map_eq_some_iff.1 h
  have hok := validateHeader_ok hversion
  rw [hopcode] at hok
  rw [decodeMessage_some hrequest]
  unfold Answers Reply.header Reply.status readGlyphMetricsRequest
  rw [hopcode]
  simp only [hok]
  split
  · exact absurd rfl ‹_›
  split
  · exact ⟨rfl, Or.inr rfl⟩
  · exact ⟨rfl, Or.inl rfl⟩

/-- The reply answers the request for a row. -/
theorem buildGlyphRowReply_answers {font : Bool} {message : IPCMessage} {reply : GlyphRowReply}
    (hversion : (Protocol.header message.data).version = fontManager.version)
    (hopcode : (Protocol.header message.data).opcode = opGetGlyphRow)
    (h : buildGlyphRowReply font message = some reply) : Answers message (.glyphRow reply) := by
  obtain ⟨request, hrequest, rfl⟩ := Option.map_eq_some_iff.1 h
  have hok := validateHeader_ok hversion
  rw [hopcode] at hok
  rw [decodeMessage_some hrequest]
  unfold Answers Reply.header Reply.status readGlyphRowRequest
  rw [hopcode]
  simp only [hok]
  split
  · exact absurd rfl ‹_›
  -- What can still be missing is the font, the picture, or the row in it.
  split
  · exact ⟨rfl, Or.inr rfl⟩
  split
  · exact ⟨rfl, Or.inr rfl⟩
  split
  · exact ⟨rfl, Or.inr rfl⟩
  · exact ⟨rfl, Or.inl rfl⟩

/-- The reply built to a well formed request answers it. -/
theorem answers_of_wellFormed (font : Bool) (message : IPCMessage) (h : WellFormed message) :
    (service font).accepts message = true ∧
      ∀ reply, (service font).build message = some reply → Answers message reply := by
  refine ⟨?_, ?_⟩
  · show (message.isRequest && !decide (message.data.length < Protocol.headerSize)) = true
    rw [h.isRequest, decide_eq_false (Nat.not_lt.2 h.headerSize_le)]
    rfl
  · -- One case for each opcode, in the order of the source.
    intro reply hreply
    have hbuild : buildReply font message = some reply := hreply
    unfold buildReply at hbuild
    simp only at hbuild
    split at hbuild
    · next hopcode =>
      obtain ⟨hello, hhello, rfl⟩ := Option.map_eq_some_iff.1 hbuild
      exact buildHelloReply_answers h.version hopcode hhello
    split at hbuild
    · next hopcode =>
      obtain ⟨info, hinfo, rfl⟩ := Option.map_eq_some_iff.1 hbuild
      exact buildFontInfoReply_answers h.version hopcode hinfo
    split at hbuild
    · next hopcode =>
      obtain ⟨metrics, hmetrics, rfl⟩ := Option.map_eq_some_iff.1 hbuild
      exact buildGlyphMetricsReply_answers h.version hopcode hmetrics
    split at hbuild
    · next hopcode =>
      obtain ⟨row, hrow, rfl⟩ := Option.map_eq_some_iff.1 hbuild
      exact buildGlyphRowReply_answers h.version hopcode hrow
    · -- The opcode is one of the four.
      next hnhello hninfo hnmetrics hnrow =>
      rcases h.opcode with hop | hop | hop | hop
      · exact absurd hop hnhello
      · exact absurd hop hninfo
      · exact absurd hop hnmetrics
      · exact absurd hop hnrow

/-- A turn can be answered if its message is complete. -/
theorem answerable_iff (font : Bool) (t : Turn IPCMessage) :
    (service font).Answerable t ↔ ∀ message, t.received = some message → Complete message := by
  constructor
  · intro h message hmessage hrequest hheader
    refine (buildReply_isSome font hheader).1 (h message hmessage ?_)
    show (message.isRequest && !decide (message.data.length < Protocol.headerSize)) = true
    rw [hrequest, decide_eq_false (Nat.not_lt.2 hheader)]
    rfl
  · intro h message hmessage haccepts
    obtain ⟨hrequest, hheader⟩ := Bool.and_eq_true_iff.1 haccepts
    have hheader' : Protocol.headerSize ≤ message.data.length := by simpa using hheader
    exact (buildReply_isSome font hheader').2 (h message hmessage hrequest hheader')

/-! ## Runs -/

/-- While their queues work, the font manager and a service of `service_daemon::run` go on serving,
and answer every well formed request, along a run of messages exactly when no request of the run is
cut short: shorter than its opcode says for the font manager, shorter than a greeting for the
other. -/
theorem servesAlong_iff (font : Bool) (serviceName : String) (ts : List (Turn IPCMessage))
    (hworks : ∀ t ∈ ts, t.Works) :
    (Along (service font).turn ((service font).Serves WellFormed Answers) .start ts ↔
      ∀ t ∈ ts, ∀ message, t.received = some message → Complete message) ∧
    (Along (Daemon.service serviceName).turn
        ((Daemon.service serviceName).Serves Daemon.WellFormed (Daemon.Answers serviceName))
        .start ts ↔
      ∀ t ∈ ts, ∀ message, t.received = some message → Daemon.Complete message) := by
  refine ⟨?_, ?_⟩
  · rw [along_serves_iff (answers_of_wellFormed font) rfl hworks]
    exact forall₂_congr fun t _ => answerable_iff font t
  · rw [along_serves_iff (Daemon.answers_of_wellFormed serviceName) rfl hworks]
    exact forall₂_congr fun t _ => Daemon.answerable_iff serviceName t

end Requests

/-- A number of `n` bytes at a place of a payload, the lowest byte first. -/
def numberAt (data : List Byte) (i n : ℕ) : ℕ :=
  ((data.drop i).take n).foldr (fun byte rest => byte.toNat + 256 * rest) 0

/-- The protocol with a header of a version, an opcode and four reserved bytes, followed by the
fields of a request in four bytes each. -/
abbrev packedProtocol : FontProtocol where
  request := 1
  headerSize := 8
  header data := ⟨numberAt data 0 2, numberAt data 2 2, numberAt data 4 4⟩
  graphicsCompositor := ⟨1, 1, 8⟩
  serviceNameSize := 32
  fontManager := ⟨1, 1, 8⟩
  opGetFontInfo := 2
  opGetGlyphMetrics := 3
  opGetGlyphRow := 4
  fontInfoRequestSize := 12
  glyphMetricsRequestSize := 16
  glyphRowRequestSize := 20
  fontInfoHeight data := numberAt data 8 4
  glyphMetrics data := (numberAt data 8 4, numberAt data 12 4)
  glyphRow data := (numberAt data 8 4, numberAt data 12 4, numberAt data 16 4)
  defaultPixelHeight := 16
  maxGlyphRowPixels := 128
  name := "font.manager"
  familySize := 32

/-- A font whose characters are as wide as half their height, and empty. -/
abbrev blankFont : Truetype where
  ascent := 12
  descent := -4
  lineGap := 0
  scaledCeil value pixelHeight := value * pixelHeight / 16
  advance _ := 8
  bitmapBox _ pixelHeight := (0, 0, pixelHeight / 2, pixelHeight)
  bitmap _ pixelHeight :=
    some ⟨pixelHeight / 2, pixelHeight, List.replicate (pixelHeight / 2 * pixelHeight) 0⟩

/-- A request of a header alone. -/
def headerOnly (id : ℕ) (opcode : Byte) : IPCMessage := ⟨id, 1, [1, 0, opcode, 0, 0, 0, 0, 0]⟩

/-- The queue works while two requests come in: one that asks for a row of a character and is cut
short after its header, and a greeting. -/
def cutShort : List (Turn IPCMessage) :=
  [⟨some (headerOnly 1 4), true⟩, ⟨some (headerOnly 2 1), true⟩]

/-- The first request ends the font manager, and its greeting is not answered. A greeting that is
one byte short ends the other loop. -/
theorem cutShort_ends :
    (∀ t ∈ cutShort, t.Works) ∧ @WellFormed packedProtocol (headerOnly 2 1) ∧
      cutShort.foldl (@service packedProtocol blankFont true).turn .start = ⟨false, []⟩ ∧
      ¬Along (@service packedProtocol blankFont true).turn
        ((@service packedProtocol blankFont true).Serves (@WellFormed packedProtocol)
          (@Answers packedProtocol)) .start cutShort ∧
      ((@Daemon.service packedProtocol.toProtocol "session.manager").turn .start
        ⟨some ⟨1, 1, [1, 0, 1, 0, 0, 0, 0]⟩, true⟩).running = false := by
  have hrun : cutShort.foldl (@service packedProtocol blankFont true).turn .start =
      ⟨false, []⟩ := by rfl
  have hwell : @WellFormed packedProtocol (headerOnly 2 1) :=
    @WellFormed.mk packedProtocol _ (by decide) (by decide) (by decide) (by decide)
      (Or.inl (by decide))
  refine ⟨?_, hwell, hrun, ?_, by rfl⟩
  · intro t ht
    rcases List.mem_cons.1 ht with rfl | ht
    · exact ⟨rfl, rfl⟩
    · rw [List.mem_singleton.1 ht]
      exact ⟨rfl, rfl⟩
  · -- The loop has ended with the first turn.
    rintro ⟨⟨hrunning, -⟩, -⟩
    exact absurd hrunning (by decide)

/-- A greeting is answered by both. -/
theorem servesAlong_iff_greeting :
    Along (@service packedProtocol blankFont true).turn
        ((@service packedProtocol blankFont true).Serves (@WellFormed packedProtocol)
          (@Answers packedProtocol)) .start [⟨some (headerOnly 2 1), true⟩] ∧
      Along (@Daemon.service packedProtocol.toProtocol "session.manager").turn
        ((@Daemon.service packedProtocol.toProtocol "session.manager").Serves
          (@Daemon.WellFormed packedProtocol.toProtocol)
          (@Daemon.Answers packedProtocol.toProtocol "session.manager"))
        .start [⟨some (headerOnly 2 1), true⟩] := by
  obtain ⟨hfont, hdaemon⟩ := @servesAlong_iff packedProtocol blankFont true "session.manager"
    [⟨some (headerOnly 2 1), true⟩] (fun t ht => by
      rw [List.mem_singleton.1 ht]
      exact ⟨rfl, rfl⟩)
  refine ⟨hfont.2 ?_, hdaemon.2 ?_⟩
  · intro t ht message hmessage _ _
    rw [List.mem_singleton.1 ht] at hmessage
    rw [← Option.some.inj hmessage]
    decide
  · intro t ht message hmessage _
    rw [List.mem_singleton.1 ht] at hmessage
    rw [← Option.some.inj hmessage]
    decide

end IUserApps.Services.FontManager
