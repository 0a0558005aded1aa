import OrionMesh.Auth
import OrionMesh.Lib.Hex
import OrionMesh.Lib.Json
import OrionMesh.Queue

/-!
# The webhook receiver

`orion-webhook` publishes what is posted to it on the subject of a queue, the route of the post
behind it. With a secret it lets only signed posts through. It does not wait for the stream: the
answer does not tell whether the post is stored.
-/

namespace OrionMesh

open Wire (QueueSpec)

/-- What the receiver uses of other packages. -/
structure HookLib where
  /-- `HMAC-SHA256`. -/
  hmac : List UInt8 → List UInt8 → List UInt8
  /-- `serde_json::from_str`. -/
  fromStr : String → Option Json
  /-- `serde_json::to_vec`. -/
  toText : Json → String

def verifyHmacSha256 (hmac : List UInt8 → List UInt8 → List UInt8) (secret : String)
    (body : List UInt8) (headerValue : String) : Bool :=
  match Hex.decode ((stripPrefix "sha256=" headerValue).getD headerValue).toList with
  | some expected => expected = hmac (asBytes secret) body
  | none => false

/-- What the receiver publishes. -/
structure WebhookEvent where
  at_ : String
  headers : Value
  body : Value
  rawBody : String
  subject : String

def WebhookEvent.json (e : WebhookEvent) : Json :=
  .obj [("at", .str e.at_), ("headers", e.headers.json), ("body", e.body.json),
    ("raw_body", .str e.rawBody), ("_subject", .str e.subject)]

inductive HookStatus
  | ok
  | unauthorized
  | internalServerError
  deriving DecidableEq

/-- A post to `/hook`, or to `/hook/<route>`. -/
structure HookRequest where
  route : Option String
  headers : HeaderMap
  body : List UInt8
  deriving DecidableEq

namespace HookRequest

/-- The first of the three headers that is there decides, whatever it holds. -/
def signature (req : HookRequest) : String :=
  ((req.headers.get "x-orion-signature" <|> req.headers.get "x-hub-signature-256" <|>
    req.headers.get "x-signature-256").bind headerToStr).getD ""

def subject (req : HookRequest) (subject : String) : String :=
  match req.route with
  | some r => subject ++ "." ++ r
  | none => subject

end HookRequest

/-- The headers that are text, the last value of each. -/
def hookHeaders (headers : HeaderMap) : Value :=
  .ofJson (.obj (headers.filterMap fun h => (headerToStr h.2).map fun s => (h.1, .str s)))

def webhookEvent (lib : HookLib) (subject now : String) (req : HookRequest) : WebhookEvent :=
  let rawBody := String.ofList (fromUtf8Lossy req.body)
  { at_ := now
    headers := hookHeaders req.headers
    body := .ofJson ((lib.fromStr rawBody).getD (.str rawBody))
    rawBody := rawBody
    subject := req.subject subject }

/-- A post, the text of the clock, and whether the client can still publish. -/
structure HookPost where
  request : HookRequest
  now : String
  connected : Bool
  deriving DecidableEq

def HookPost.message (lib : HookLib) (subject : String) (p : HookPost) : QueueMsg :=
  ⟨p.request.subject subject, lib.toText (webhookEvent lib subject p.now p.request).json⟩

/-- The handler, with the stream of the queue. -/
def receiveInner (lib : HookLib) (subject : String) (secret : Option String) (p : HookPost)
    (s : QueueStream) : QueueStream × HookStatus :=
  if secret.any fun key => !verifyHmacSha256 lib.hmac key p.request.body p.request.signature then
    (s, .unauthorized)
  else if !p.connected then (s, .internalServerError)
  else if s.captures (p.request.subject subject) then (s.store (p.message lib subject), .ok)
  else (s, .ok)

/-! ## With the processes of the queue -/

/-- The queue, and the posts answered so far. -/
structure HookFlow where
  flow : QueueFlow
  answered : List (HookPost × HookStatus)
  deriving DecidableEq

inductive HookEvent
  | post (p : HookPost)
  | queue (e : QueueEvent)
  deriving DecidableEq

/-- The subjects of the stream: `ensure_stream` leaves it as it is if the queue commands made it
before the receiver did. -/
def hookStreamSubjects (subject : String) (own : Bool) : List String :=
  if own then [subject, subject ++ ".>"] else [subject]

namespace HookFlow

variable (lib : HookLib) (secret : Option String) (name : String) (queue : QueueSpec)

def start (own : Bool) : HookFlow :=
  ⟨⟨⟨hookStreamSubjects (queueStreamConfig name queue).1 own, .empty⟩, ∅, ∅⟩, []⟩

/-- Nobody else publishes to the queue, and no route has a blank in it. -/
def step (h : HookFlow) : HookEvent → Option HookFlow
  | .post p =>
    if p.request.route.any fun r => r.toList.any isWhitespace then none
    else
      let (stream, status) :=
        receiveInner lib (queueStreamConfig name queue).1 secret p h.flow.stream
      some ⟨{ h.flow with stream := stream }, h.answered ++ [(p, status)]⟩
  | .queue (.publish _) => none
  | .queue e => (h.flow.step name queue e).map fun flow => { h with flow := flow }

end HookFlow

end OrionMesh
