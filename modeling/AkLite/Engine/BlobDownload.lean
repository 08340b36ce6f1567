/-
The download of a blob.

The chunks of a response go through a context that writes them to a file, counts them and
hashes them.  A chunk that would make the blob too long, or that comes after a failed write,
is refused; the client may stop there or go on.  The body of a response that asks for a
token is written too, and then overwritten.  In the end the counter and the hash are
compared with what is expected, and not the file: so the file is right if it has got all
that was put into the stream.
-/
import AkLite.Engine.BearerAuth
import AkLite.Engine.Docker
import AkLite.Lib.Effect
import AkLite.Lib.OutStream

namespace AkLite
namespace Docker
namespace RegistryClient

open Lib

/-- The data of one call of the handler, and where their write fails. -/
structure Chunk where
  data : List UInt8
  fails : Option Nat
  size_lt : data.length < UInt64.size

def Chunk.size (chunk : Chunk) : UInt64 := UInt64.ofNat chunk.data.length

structure DownloadCtx where
  outStream : OutStream UInt8
  /-- What has been hashed. -/
  hasher : List UInt8
  expectedSize : UInt64
  writtenSize : UInt64
  receivedSize : UInt64

namespace DownloadCtx

def init (expectedSize : UInt64) : DownloadCtx :=
  { outStream := .opened, hasher := [], expectedSize := expectedSize, writtenSize := 0,
    receivedSize := 0 }

/-- The handler, with what it returns to the client. -/
def write (ctx : DownloadCtx) (chunk : Chunk) : UInt64 × DownloadCtx :=
  let ctx := { ctx with receivedSize := ctx.writtenSize + chunk.size }
  -- the client is made to fail
  if ctx.expectedSize < ctx.receivedSize then (chunk.size + 1, ctx)
  else if !ctx.outStream.good then (chunk.size + 1, ctx)
  else
    let startPos := ctx.outStream.tellp
    let outStream := ctx.outStream.write chunk.data chunk.fails
    let endPos := outStream.tellp
    (UInt64.ofInt (endPos - startPos),
      { ctx with
        outStream := outStream
        writtenSize := ctx.writtenSize + UInt64.ofInt (endPos - startPos)
        hasher := ctx.hasher ++ chunk.data })

def reset (ctx : DownloadCtx) (flushed : Bool) : DownloadCtx :=
  { ctx with
    outStream := ctx.outStream.rewind flushed
    hasher := []
    writtenSize := 0
    receivedSize := 0 }

/-- The chunks of a response, and whether the client gave up. -/
def deliver (heeds : Bool) : DownloadCtx → List Chunk → Bool × DownloadCtx
  | ctx, [] => (false, ctx)
  | ctx, chunk :: chunks =>
    if heeds && decide ((ctx.write chunk).1 ≠ chunk.size) then (true, (ctx.write chunk).2)
    else deliver heeds (ctx.write chunk).2 chunks

end DownloadCtx

/-- A response.  The client heeds what the handler returns, or does not. -/
structure Response where
  chunks : List Chunk
  heeds : Bool
  curlOk : Bool
  httpStatusCode : Nat
  statusStr : String
  headers : List (String × String)

/-- The client's part, and the rest of the world. -/
structure BlobEnv where
  opens : Bool
  /-- The response to a request with these headers. -/
  download : List String → Response
  getBearerAuthHeader : BearerAuth → Except String String
  /-- The stream can be written out where it goes back. -/
  flushed : Bool

/-- A request, with the response and whether it is in order. -/
def doDownloadBlobRequest (env : BlobEnv) (headers : List String) :
    EStateM String DownloadCtx (Response × Bool) := do
  let response := env.download headers
  let delivered := (← get).deliver response.heeds response.chunks
  modify fun _ => delivered.2
  return (response, !delivered.1 && response.curlOk &&
    decide (200 ≤ response.httpStatusCode) && decide (response.httpStatusCode < 400))

def checkResponse (response : Response × Bool) : EStateM String DownloadCtx Unit := do
  if !response.2 then throw ("Failed to download App blob: " ++ response.1.statusStr)

/-- The requests for a blob. -/
def requestBlob (env : BlobEnv) : EStateM String DownloadCtx Unit := do
  let response ← doDownloadBlobRequest env []
  if response.1.httpStatusCode = 401 then
    match response.1.headers.lookup "www-authenticate" with
    | none => throw "No `www-authenticate` header found in the 401 response"
    | some value =>
      -- the parser's loop always ends
      let bearer ← orThrow ((BearerAuth.parse value).getD (.error ""))
      let authHeader ← orThrow (env.getBearerAuthHeader bearer)
      modify fun ctx => ctx.reset env.flushed
      checkResponse (← doDownloadBlobRequest env [authHeader])
  else
    checkResponse response

/-- What is in a file after its stream has been closed: what was put into the stream, if all
of it could be written out.  A file ends before the greatest position. -/
structure Closing where
  file : List UInt8 → List UInt8
  length_le : ∀ content, (file content).length ≤ maxOffset

section

variable (hexDigest : List UInt8 → String) (closing : Closing)

/-- The hash of a content, in lower case. -/
def blobHash (content : List UInt8) : String :=
  String.ofList ((hexDigest content).toList.map Char.toLower)

/-- The state is the file. -/
def downloadBlob (env : BlobEnv) (uri : Uri) (filepath : String) (expectedSize : UInt64) :
    EStateM String (Option (List UInt8)) Unit := do
  if !env.opens then throw ("Failed to open a file: " ++ filepath)
  match requestBlob env (.init expectedSize) with
  | .error what ctx =>
    modify fun _ => some (closing.file ctx.outStream.content)
    throw what
  | .ok _ ctx =>
    modify fun _ => some (closing.file ctx.outStream.content)
    if ctx.writtenSize ≠ expectedSize then
      modify fun _ => none
      throw ("Size of downloaded App blob does not equal to the expected one: " ++
        toString ctx.writtenSize ++ " != " ++ toString expectedSize)
    if blobHash hexDigest ctx.hasher ≠ uri.digest.hash then
      modify fun _ => none
      throw ("Hash of downloaded App blob does not equal to the expected one: " ++
        blobHash hexDigest ctx.hasher ++ " != " ++ uri.digest.hash)

end

/-! ## The counter -/

/-- The size of a file that is as long as a word can say. -/
def maxSize : UInt64 := UInt64.ofNat (UInt64.size - 1)

theorem toNat_ofInt_sub {a b : Nat} (h : a ≤ b) (hb : b < UInt64.size) :
    (UInt64.ofInt ((b : Int) - (a : Int))).toNat = b - a := by
  rw [UInt64.ofInt, UInt64.toNat_ofNat']
  simp only [UInt64.size] at hb
  omega

/-- The position of a bad stream takes the counter to its greatest value. -/
theorem add_ofInt_bad {written : UInt64} {pos : Nat} (h : written.toNat = pos) :
    written + UInt64.ofInt (-1 - (pos : Int)) = maxSize := by
  rw [← UInt64.toNat_inj, UInt64.toNat_add, UInt64.ofInt, UInt64.toNat_ofNat', maxSize,
    UInt64.toNat_ofNat', h]
  have hlt := written.toNat_lt
  simp only [UInt64.size]
  omega

namespace DownloadCtx

variable {ctx : DownloadCtx} {chunk : Chunk}

/-- The stream starts with what was hashed, and what is behind it is not too much. -/
structure Synced (ctx : DownloadCtx) : Prop where
  pos : ctx.outStream.pos = ctx.hasher.length
  written : ctx.writtenSize.toNat = ctx.hasher.length
  hashed : ∃ tail, ctx.outStream.content = ctx.hasher ++ tail
  length : ctx.outStream.content.length ≤ ctx.expectedSize.toNat

/-- What holds of the stream, the counter and the hasher, whatever was delivered.  A failed
write shows in the counter until the context is reset. -/
structure Tracks (ctx : DownloadCtx) : Prop where
  bound : ctx.outStream.content.length ≤ maxOffset
  empty : ctx.expectedSize = 0 → ctx.outStream.content = []
  hashed : ctx.hasher.length < UInt64.size + maxOffset
  good : ctx.outStream.good = true → ctx.Synced
  bad : ctx.outStream.good = false →
    ctx.writtenSize = maxSize ∨ (ctx.writtenSize = 0 ∧ ctx.hasher = [])

theorem tracks_init (expectedSize : UInt64) : (init expectedSize).Tracks where
  bound := Nat.zero_le _
  empty _ := rfl
  hashed := (by decide : 0 < UInt64.size + maxOffset)
  good _ := ⟨rfl, rfl, ⟨[], rfl⟩, Nat.zero_le _⟩
  bad h := by cases h

/-- The context after a chunk that was not refused. -/
def put (ctx : DownloadCtx) (chunk : Chunk) : DownloadCtx :=
  let outStream := ctx.outStream.write chunk.data chunk.fails
  { ctx with
    receivedSize := ctx.writtenSize + chunk.size
    outStream := outStream
    writtenSize := ctx.writtenSize + UInt64.ofInt (outStream.tellp - ctx.outStream.tellp)
    hasher := ctx.hasher ++ chunk.data }

@[simp] theorem put_outStream (ctx : DownloadCtx) (chunk : Chunk) :
    (ctx.put chunk).outStream = ctx.outStream.write chunk.data chunk.fails := rfl

@[simp] theorem put_writtenSize (ctx : DownloadCtx) (chunk : Chunk) :
    (ctx.put chunk).writtenSize = ctx.writtenSize + UInt64.ofInt
      ((ctx.outStream.write chunk.data chunk.fails).tellp - ctx.outStream.tellp) := rfl

@[simp] theorem put_hasher (ctx : DownloadCtx) (chunk : Chunk) :
    (ctx.put chunk).hasher = ctx.hasher ++ chunk.data := rfl

@[simp] theorem put_expectedSize (ctx : DownloadCtx) (chunk : Chunk) :
    (ctx.put chunk).expectedSize = ctx.expectedSize := rfl

theorem write_taken (hgood : ctx.outStream.good = true)
    (hsize : ctx.writtenSize + chunk.size ≤ ctx.expectedSize) :
    ctx.write chunk =
      (UInt64.ofInt ((ctx.outStream.write chunk.data chunk.fails).tellp - ctx.outStream.tellp),
        ctx.put chunk) := by
  rw [write]
  dsimp only
  rw [if_neg (UInt64.not_lt.mpr hsize), hgood, if_neg (by decide)]
  rfl

/-- A chunk is refused, or written and hashed. -/
theorem write_cases (ctx : DownloadCtx) (chunk : Chunk) :
    (ctx.write chunk).2 = { ctx with receivedSize := ctx.writtenSize + chunk.size } ∨
    (ctx.outStream.good = true ∧ ctx.writtenSize + chunk.size ≤ ctx.expectedSize ∧
      (ctx.write chunk).2 = ctx.put chunk) := by
  by_cases hsize : ctx.writtenSize + chunk.size ≤ ctx.expectedSize
  · cases hgood : ctx.outStream.good with
    | true => exact .inr ⟨rfl, hsize, congrArg Prod.snd (write_taken hgood hsize)⟩
    | false =>
      left
      rw [write]
      dsimp only
      rw [if_neg (UInt64.not_lt.mpr hsize), hgood]
      rfl
  · left
    rw [write]
    dsimp only
    rw [if_pos (UInt64.not_le.mp hsize)]

/-- The number of elements is what the size says, if they fit. -/
theorem toNat_written_add (hsync : ctx.Synced)
    (hroom : ctx.hasher.length + chunk.data.length ≤ maxOffset) :
    (ctx.writtenSize + chunk.size).toNat = ctx.hasher.length + chunk.data.length := by
  rw [UInt64.toNat_add, Chunk.size, UInt64.toNat_ofNat', hsync.written]
  simp only [maxOffset] at hroom
  omega

theorem synced_put (hsync : ctx.Synced) (hgood : ctx.outStream.good = true)
    (hsize : ctx.writtenSize + chunk.size ≤ ctx.expectedSize)
    (hwritten : (ctx.outStream.write chunk.data chunk.fails).good = true) :
    (ctx.put chunk).Synced := by
  obtain ⟨hroom, hwrite⟩ := OutStream.write_of_good hgood hwritten
  rw [hsync.pos] at hroom
  obtain ⟨tail, htail⟩ := hsync.hashed
  have hcontent : (ctx.outStream.write chunk.data chunk.fails).content =
      ctx.hasher ++ chunk.data ++ tail.drop chunk.data.length := by
    rw [hwrite]
    dsimp only
    rw [hsync.pos, htail, overwriteAt_append]
  have htell : (ctx.outStream.write chunk.data chunk.fails).tellp =
      ((ctx.hasher.length + chunk.data.length : Nat) : Int) := by
    rw [OutStream.tellp_of_good hwritten, hwrite, hsync.pos]
  have hbound := toNat_written_add hsync hroom
  have hle := UInt64.le_iff_toNat_le.mp hsize
  rw [hbound] at hle
  have hlt := ctx.expectedSize.toNat_lt
  refine ⟨?_, ?_, ⟨_, hcontent⟩, ?_⟩
  · rw [put_outStream, put_hasher, hwrite, hsync.pos, List.length_append]
  · rw [put_writtenSize, put_hasher, htell, OutStream.tellp_of_good hgood, hsync.pos,
      UInt64.toNat_add, toNat_ofInt_sub (Nat.le_add_right _ _) (by simp only [UInt64.size]; omega),
      hsync.written, List.length_append]
    omega
  · have hlength := hsync.length
    rw [htail, List.length_append] at hlength
    rw [put_outStream, put_expectedSize, hcontent, List.length_append, List.length_append,
      List.length_drop]
    omega

/-- The counter after a failed write. -/
theorem writtenSize_put_failed (hsync : ctx.Synced) (hgood : ctx.outStream.good = true)
    (hfailed : (ctx.outStream.write chunk.data chunk.fails).good = false) :
    (ctx.put chunk).writtenSize = maxSize := by
  rw [put_writtenSize, OutStream.tellp_of_bad hfailed, OutStream.tellp_of_good hgood, hsync.pos]
  exact add_ofInt_bad hsync.written

/-- One chunk. -/
theorem Tracks.write (h : ctx.Tracks) (chunk : Chunk) : (ctx.write chunk).2.Tracks := by
  rcases write_cases ctx chunk with hsame | ⟨hgood, hsize, hwrite⟩
  · rw [hsame]
    exact ⟨h.bound, h.empty, h.hashed, fun hgood =>
      let hsync := h.good hgood
      ⟨hsync.pos, hsync.written, hsync.hashed, hsync.length⟩, h.bad⟩
  · have hsync := h.good hgood
    obtain ⟨tail, htail⟩ := hsync.hashed
    have hhasher : ctx.hasher.length ≤ maxOffset := by
      have hbound := h.bound
      rw [htail, List.length_append] at hbound
      omega
    rw [hwrite]
    refine ⟨?_, fun hzero => ?_, ?_, synced_put hsync hgood hsize, fun hbad => .inl ?_⟩
    · exact OutStream.length_write_le h.bound (hsync.pos ▸ hhasher)
    · -- nothing was written before, and the chunk is empty
      have hnil := h.empty hzero
      rw [htail, List.append_eq_nil_iff] at hnil
      have hle : (ctx.writtenSize + chunk.size).toNat ≤ ctx.expectedSize.toNat :=
        UInt64.le_iff_toNat_le.mp hsize
      have hlt := chunk.size_lt
      rw [show ctx.expectedSize = 0 from hzero, UInt64.toNat_add, hsync.written, hnil.1,
        Chunk.size, UInt64.toNat_ofNat', List.length_nil] at hle
      have hdata : chunk.data = [] := List.eq_nil_of_length_eq_zero (by
        simp only [UInt64.size] at hlt
        change (0 + chunk.data.length % 2 ^ 64) % 2 ^ 64 ≤ 0 at hle
        omega)
      rw [put_outStream, hdata, OutStream.content_write_nil, h.empty hzero]
    · have hlt := chunk.size_lt
      rw [put_hasher, List.length_append]
      omega
    · exact writtenSize_put_failed hsync hgood hbad

theorem Tracks.reset (h : ctx.Tracks) (flushed : Bool) : (ctx.reset flushed).Tracks := by
  have hcontent : (ctx.reset flushed).outStream.content = ctx.outStream.content :=
    OutStream.content_rewind _ _
  have hhashed : 0 < UInt64.size + maxOffset := by decide
  refine ⟨?_, fun hzero => ?_, hhashed, fun hgood => ?_, fun _ => .inr ⟨rfl, rfl⟩⟩
  · rw [hcontent]
    exact h.bound
  · rw [hcontent]
    exact h.empty hzero
  · obtain ⟨hbefore, hpos⟩ := OutStream.rewind_of_good hgood
    refine ⟨hpos, rfl, ⟨_, rfl⟩, ?_⟩
    rw [hcontent]
    exact (h.good hbefore).length

theorem expectedSize_write (ctx : DownloadCtx) (chunk : Chunk) :
    (ctx.write chunk).2.expectedSize = ctx.expectedSize := by
  rcases write_cases ctx chunk with hsame | ⟨_, _, hwrite⟩
  · rw [hsame]
  · rw [hwrite, put_expectedSize]

/-- The chunks of a response, as far as the client goes. -/
theorem Tracks.deliver {heeds : Bool} {chunks : List Chunk} (h : ctx.Tracks) :
    (ctx.deliver heeds chunks).2.Tracks ∧
      (ctx.deliver heeds chunks).2.expectedSize = ctx.expectedSize := by
  induction chunks generalizing ctx with
  | nil => exact ⟨h, rfl⟩
  | cons chunk chunks ih =>
    rw [DownloadCtx.deliver]
    split
    · exact ⟨h.write chunk, expectedSize_write ctx chunk⟩
    · obtain ⟨htracks, hsize⟩ := ih (h.write chunk)
      exact ⟨htracks, hsize.trans (expectedSize_write ctx chunk)⟩

/-- A chunk that fits is written, if its write does not fail. -/
theorem write_fitting (hsync : ctx.Synced) (hgood : ctx.outStream.good = true)
    (hfails : chunk.fails = none)
    (hfits : ctx.hasher.length + chunk.data.length ≤ ctx.expectedSize.toNat)
    (hroom : ctx.hasher.length + chunk.data.length ≤ maxOffset) :
    ctx.write chunk = (chunk.size, ctx.put chunk) ∧ (ctx.put chunk).outStream.good = true := by
  have hwritten : (ctx.outStream.write chunk.data chunk.fails).good = true := by
    rw [hfails]
    exact OutStream.good_write hgood (by rwa [hsync.pos])
  have hsize : ctx.writtenSize + chunk.size ≤ ctx.expectedSize := by
    rw [UInt64.le_iff_toNat_le, toNat_written_add hsync hroom]
    exact hfits
  obtain ⟨_, hwrite⟩ := OutStream.write_of_good hgood hwritten
  refine ⟨?_, hwritten⟩
  rw [write_taken hgood hsize, OutStream.tellp_of_good hwritten, OutStream.tellp_of_good hgood,
    hwrite]
  refine congrArg (·, ctx.put chunk) (UInt64.toNat_inj.mp ?_)
  have hlt := chunk.size_lt
  rw [Chunk.size, UInt64.toNat_ofNat', toNat_ofInt_sub (Nat.le_add_right _ _)]
  · simp only [UInt64.size] at hlt
    omega
  · rw [hsync.pos]
    simp only [UInt64.size, maxOffset] at hroom ⊢
    omega

/-- All chunks are taken if they fit together. -/
theorem deliver_fitting {heeds : Bool} {chunks : List Chunk} (h : ctx.Tracks)
    (hgood : ctx.outStream.good = true) (hfails : ∀ chunk ∈ chunks, chunk.fails = none)
    (hfits : (ctx.hasher ++ (chunks.map Chunk.data).flatten).length ≤ ctx.expectedSize.toNat)
    (hroom : (ctx.hasher ++ (chunks.map Chunk.data).flatten).length ≤ maxOffset) :
    (ctx.deliver heeds chunks).1 = false ∧
      (ctx.deliver heeds chunks).2.outStream.good = true ∧
      (ctx.deliver heeds chunks).2.hasher = ctx.hasher ++ (chunks.map Chunk.data).flatten := by
  induction chunks generalizing ctx with
  | nil => exact ⟨rfl, hgood, (List.append_nil _).symm⟩
  | cons chunk chunks ih =>
    rw [List.forall_mem_cons] at hfails
    rw [List.map_cons, List.flatten_cons, ← List.append_assoc] at hfits hroom ⊢
    have hle : ctx.hasher.length + chunk.data.length ≤
        (ctx.hasher ++ chunk.data ++ (chunks.map Chunk.data).flatten).length := by
      rw [List.length_append, List.length_append]
      omega
    obtain ⟨hwrite, hgood'⟩ := write_fitting (h.good hgood) hgood hfails.1
      (Nat.le_trans hle hfits) (Nat.le_trans hle hroom)
    have htracks := h.write chunk
    rw [hwrite] at htracks
    rw [deliver, hwrite, if_neg (by simp)]
    exact ih htracks hgood' hfails.2 hfits hroom

/-- Nothing is left of an earlier body once the counter has the expected size. -/
theorem Tracks.content_eq (h : ctx.Tracks) (hgood : ctx.outStream.good = true)
    (hsize : ctx.writtenSize = ctx.expectedSize) : ctx.outStream.content = ctx.hasher := by
  have hsync := h.good hgood
  obtain ⟨tail, htail⟩ := hsync.hashed
  have hlength := hsync.length
  rw [← hsize, hsync.written, htail, List.length_append] at hlength
  have hnil : tail = [] := List.eq_nil_of_length_eq_zero (by omega)
  rw [htail, hnil, List.append_nil]

/-- A client that does not heed the handler passes every chunk to it. -/
theorem deliver_unheeded (ctx : DownloadCtx) (chunks : List Chunk) :
    ctx.deliver false chunks =
      (false, chunks.foldl (fun ctx chunk => (ctx.write chunk).2) ctx) := by
  induction chunks generalizing ctx with
  | nil => rfl
  | cons chunk chunks ih =>
    rw [deliver, Bool.false_and, if_neg (by decide), ih, List.foldl_cons]

end DownloadCtx

/-! ## The file -/

section

variable {env : BlobEnv} {expectedSize : UInt64}

theorem keeps_doDownloadBlobRequest (headers : List String) :
    Keeps (fun ctx => ctx.Tracks ∧ ctx.expectedSize = expectedSize) (fun _ _ => True)
      (doDownloadBlobRequest env headers) := by
  intro ctx h
  unfold doDownloadBlobRequest
  rw [wp_bind, wp_get, wp_bind, wp_modify, wp_pure]
  obtain ⟨htracks, hsize⟩ := h.1.deliver
  exact ⟨htracks, hsize.trans h.2⟩

theorem keeps_checkResponse (response : Response × Bool) :
    Keeps (fun ctx => ctx.Tracks ∧ ctx.expectedSize = expectedSize) (fun _ _ => True)
      (checkResponse response) := by
  intro ctx h
  unfold checkResponse
  rw [wp_ite]
  split
  · exact trivial
  · exact h

theorem keeps_requestBlob :
    Keeps (fun ctx => ctx.Tracks ∧ ctx.expectedSize = expectedSize) (fun _ _ => True)
      (requestBlob env) := by
  unfold requestBlob
  refine (keeps_doDownloadBlobRequest _).bind fun response => .ite ?_ (keeps_checkResponse _)
  split
  · exact fun _ _ => trivial
  · next value _ =>
    have hthrow : ∀ (what : String) (ctx : DownloadCtx),
        ctx.Tracks ∧ ctx.expectedSize = expectedSize → True := fun _ _ _ => trivial
    refine (Keeps.orThrow _ hthrow).bind fun bearer =>
      (Keeps.orThrow _ hthrow).bind fun header => ?_
    refine (Keeps.modify fun ctx h => ⟨h.1.reset env.flushed, h.2⟩).bind fun _ => ?_
    exact (keeps_doDownloadBlobRequest _).bind fun response => keeps_checkResponse response

theorem tracks_of_requestBlob {ctx : DownloadCtx}
    (h : requestBlob env (.init expectedSize) = .ok () ctx) :
    ctx.Tracks ∧ ctx.expectedSize = expectedSize := by
  have hkeeps : wp (requestBlob env) (fun _ ctx => ctx.Tracks ∧ ctx.expectedSize = expectedSize)
      (fun _ _ => True) (.init expectedSize) :=
    keeps_requestBlob _ ⟨DownloadCtx.tracks_init expectedSize, rfl⟩
  have hend := wp_ok hkeeps h
  exact hend

/-- A first response that is in order is the only one. -/
theorem requestBlob_first {ctx : DownloadCtx} (hcurl : (env.download []).curlOk = true)
    (hstatus : (env.download []).httpStatusCode = 200)
    (hdeliver : (ctx.deliver (env.download []).heeds (env.download []).chunks).1 = false) :
    requestBlob env ctx =
      .ok () (ctx.deliver (env.download []).heeds (env.download []).chunks).2 := by
  have hrequest : doDownloadBlobRequest env [] ctx =
      .ok (env.download [], true)
        (ctx.deliver (env.download []).heeds (env.download []).chunks).2 := by
    have hok : (!(ctx.deliver (env.download []).heeds (env.download []).chunks).1 &&
        (env.download []).curlOk && decide (200 ≤ (env.download []).httpStatusCode) &&
        decide ((env.download []).httpStatusCode < 400)) = true := by
      rw [hdeliver, hcurl, hstatus]
      rfl
    rw [← hok]
    rfl
  unfold requestBlob
  rw [bind_of_ok hrequest, if_neg (by rw [hstatus]; decide)]
  rfl

variable {hexDigest : List UInt8 → String} {closing : Closing} {uri : Uri}
variable {filepath : String} {file file' : Option (List UInt8)}

/-- A return is one after both checks. -/
theorem downloadBlob_eq_ok :
    downloadBlob hexDigest closing env uri filepath expectedSize file = .ok () file' ↔
      env.opens = true ∧ ∃ ctx, requestBlob env (.init expectedSize) = .ok () ctx ∧
        ctx.writtenSize = expectedSize ∧ blobHash hexDigest ctx.hasher = uri.digest.hash ∧
        file' = some (closing.file ctx.outStream.content) := by
  unfold downloadBlob
  cases env.opens with
  | false =>
    constructor
    · intro h
      cases h
    · rintro ⟨h, _⟩
      cases h
  | true =>
    rw [if_neg (by decide)]
    dsimp only
    cases hrun : requestBlob env (.init expectedSize) with
    | error what ctx =>
      constructor
      · intro h
        cases h
      · rintro ⟨_, ctx', h, _⟩
        cases h
    | ok _ ctx =>
      dsimp only
      by_cases hsize : ctx.writtenSize = expectedSize
      · by_cases hhash : blobHash hexDigest ctx.hasher = uri.digest.hash
        · rw [if_neg (not_not.mpr hsize), if_neg (not_not.mpr hhash)]
          constructor
          · intro h
            cases h
            exact ⟨rfl, ctx, rfl, hsize, hhash, rfl⟩
          · rintro ⟨_, ctx', hctx, _, _, rfl⟩
            cases hctx
            rfl
        · rw [if_neg (not_not.mpr hsize), if_pos hhash]
          constructor
          · intro h
            cases h
          · rintro ⟨_, ctx', hctx, _, hhash', _⟩
            cases hctx
            exact absurd hhash' hhash
      · rw [if_pos hsize]
        constructor
        · intro h
          cases h
        · rintro ⟨_, ctx', hctx, hsize', _⟩
          cases hctx
          exact absurd hsize' hsize

end

/-! ## The offline registry -/

namespace OfflineRegistry

def bufferSize : Nat := 4096

/-- What `count` full reads give, and the short one after them. -/
def reads : Nat → List UInt8 → List (List UInt8)
  | 0, rest => [rest]
  | count + 1, rest => rest.take bufferSize :: reads count (rest.drop bufferSize)

theorem flatten_reads (count : Nat) (content : List UInt8) :
    (reads count content).flatten = content := by
  induction count generalizing content with
  | zero => simp [reads]
  | succ count ih => rw [reads, List.flatten_cons, ih, List.take_append_drop]

theorem length_reads_le {count : Nat} {content data : List UInt8}
    (hlength : content.length ≤ (count + 1) * bufferSize) (h : data ∈ reads count content) :
    data.length ≤ bufferSize := by
  induction count generalizing content with
  | zero =>
    rw [List.mem_singleton.mp h]
    omega
  | succ count ih =>
    rcases List.mem_cons.mp h with rfl | h
    · exact List.length_take_le _ _
    · refine ih ?_ h
      rw [List.length_drop]
      rw [Nat.add_one_mul] at hlength
      omega

theorem size_reads_lt {content data : List UInt8}
    (h : data ∈ reads (content.length / bufferSize) content) : data.length < UInt64.size := by
  have hlength : content.length ≤ (content.length / bufferSize + 1) * bufferSize := by
    simp only [bufferSize]
    omega
  have hle := length_reads_le hlength h
  simp only [bufferSize, UInt64.size] at hle ⊢
  omega

def chunks (content : List UInt8) : List Chunk :=
  (reads (content.length / bufferSize) content).attach.map fun data =>
    { data := data.1, fails := none, size_lt := size_reads_lt data.2 }

/-- The blob of a hash, from the directory of the blobs.  What the handler returns is not
looked at. -/
def download (blobs : String → Option (List UInt8)) (hash : String) : Response :=
  match blobs hash with
  | none =>
    { chunks := [], heeds := false, curlOk := true, httpStatusCode := 404,
      statusStr := "0 Not found HTTP 404", headers := [] }
  | some content =>
    { chunks := chunks content, heeds := false, curlOk := true, httpStatusCode := 200,
      statusStr := "0  HTTP 200", headers := [] }

def env (blobs : String → Option (List UInt8)) (hash : String) : BlobEnv :=
  { opens := true, download := fun _ => download blobs hash,
    getBearerAuthHeader := fun _ => .ok "authorization: bearer token", flushed := true }

theorem flatten_chunks (content : List UInt8) :
    ((chunks content).map Chunk.data).flatten = content := by
  rw [chunks, List.map_map]
  change ((reads _ content).attach.map Subtype.val).flatten = content
  rw [List.attach_map_subtype_val, flatten_reads]

end OfflineRegistry

/-! ## Right files -/

section

variable (hexDigest : List UInt8 → String) (uri : Uri) (expectedSize : UInt64)

/-- The file is the blob of the URI. -/
structure RightFile (content : List UInt8) : Prop where
  length : content.length = expectedSize.toNat
  hash : blobHash hexDigest content = uri.digest.hash

variable {hexDigest uri expectedSize}

/-- A blob of the offline registry is downloaded. -/
theorem downloadBlob_offline (blobs : String → Option (List UInt8)) {content : List UInt8}
    (hblob : blobs uri.digest.hash = some content)
    (hright : RightFile hexDigest uri expectedSize content) (hmax : content.length ≤ maxOffset)
    (closing : Closing) (filepath : String) (file : Option (List UInt8)) :
    downloadBlob hexDigest closing (OfflineRegistry.env blobs uri.digest.hash) uri filepath
      expectedSize file = .ok () (some (closing.file content)) := by
  have hresponse : (OfflineRegistry.env blobs uri.digest.hash).download [] =
      { chunks := OfflineRegistry.chunks content, heeds := false, curlOk := true,
        httpStatusCode := 200, statusStr := "0  HTTP 200", headers := [] } := by
    change OfflineRegistry.download blobs uri.digest.hash = _
    rw [OfflineRegistry.download, hblob]
  have hflatten := OfflineRegistry.flatten_chunks content
  have hfails : ∀ chunk ∈ OfflineRegistry.chunks content, chunk.fails = none := by
    intro chunk hchunk
    obtain ⟨data, _, rfl⟩ := List.mem_map.mp hchunk
    rfl
  obtain ⟨hdeliver, hgood, hhasher⟩ :=
    DownloadCtx.deliver_fitting (DownloadCtx.tracks_init expectedSize) rfl hfails
      (by rw [hflatten]; exact Nat.le_of_eq hright.length) (by rw [hflatten]; exact hmax)
  have hrequest := requestBlob_first (by rw [hresponse]) (by rw [hresponse])
    (by rw [hresponse]; exact hdeliver)
  rw [hresponse] at hrequest
  dsimp only at hrequest
  rw [hflatten] at hhasher
  obtain ⟨htracks, hexpected⟩ := tracks_of_requestBlob hrequest
  have hsize := (htracks.good hgood).written
  rw [hhasher] at hsize
  have hwritten := UInt64.toNat_inj.mp (hsize.trans hright.length)
  have hcontent := htracks.content_eq hgood (hwritten.trans hexpected.symm)
  refine downloadBlob_eq_ok.mpr ⟨rfl, _, hrequest, hwritten, ?_, ?_⟩
  · rw [hhasher]
    exact hright.hash
  · rw [hcontent, hhasher]
    rfl

theorem le_maxSize (size : UInt64) : size ≤ maxSize := by
  rw [UInt64.le_iff_toNat_le, maxSize, UInt64.toNat_ofNat']
  have hlt := size.toNat_lt
  simp only [UInt64.size]
  omega

/-- If the greatest size is expected, a failed write of anything with the hash is taken for
the blob. -/
theorem downloadBlob_failed {data : List UInt8} (hlength : data.length < UInt64.size + maxOffset)
    (hhash : blobHash hexDigest data = uri.digest.hash) (closing : Closing) :
    ∃ env content, downloadBlob hexDigest closing env uri "" maxSize none =
      .ok () (some (closing.file content)) := by
  have hstart : (data.take maxOffset).length < UInt64.size := by
    have hle := List.length_take_le maxOffset data
    simp only [maxOffset, UInt64.size] at hle ⊢
    omega
  have hrest : (data.drop maxOffset).length < UInt64.size := by
    rw [List.length_drop]
    omega
  let start : Chunk := ⟨data.take maxOffset, none, hstart⟩
  let rest : Chunk := ⟨data.drop maxOffset, some 0, hrest⟩
  let response : Response :=
    { chunks := [start, rest], heeds := false, curlOk := true, httpStatusCode := 200,
      statusStr := "", headers := [] }
  let env : BlobEnv :=
    { opens := true, download := fun _ => response, getBearerAuthHeader := fun _ => .error "",
      flushed := true }
  -- the start is written, and the counter then goes to its greatest value
  have hinit := DownloadCtx.tracks_init maxSize
  have hfails : start.fails = none := rfl
  have hroom : (DownloadCtx.init maxSize).hasher.length + start.data.length ≤ maxOffset := by
    change 0 + (data.take maxOffset).length ≤ maxOffset
    rw [Nat.zero_add]
    exact List.length_take_le _ _
  have hfits : (DownloadCtx.init maxSize).hasher.length + start.data.length ≤ maxSize.toNat :=
    Nat.le_trans hroom (by decide)
  obtain ⟨hwrite, hgood⟩ := DownloadCtx.write_fitting (hinit.good rfl) rfl hfails hfits hroom
  have htracks := hinit.write start
  rw [hwrite] at htracks
  have hsize : ((DownloadCtx.init maxSize).put start).writtenSize + rest.size ≤ maxSize :=
    le_maxSize _
  have hrest := DownloadCtx.write_taken hgood hsize
  have hdeliver : (DownloadCtx.init maxSize).deliver response.heeds response.chunks =
      (false, ((DownloadCtx.init maxSize).put start).put rest) := by
    rw [DownloadCtx.deliver_unheeded]
    change (false, (((DownloadCtx.init maxSize).write start).2.write rest).2) = _
    rw [hwrite, hrest]
  have hrequest : requestBlob env (.init maxSize) =
      .ok () ((DownloadCtx.init maxSize).deliver response.heeds response.chunks).2 :=
    requestBlob_first rfl rfl (congrArg Prod.fst hdeliver)
  rw [hdeliver] at hrequest
  refine ⟨env, _, downloadBlob_eq_ok.mpr ⟨rfl, _, hrequest, ?_, ?_, rfl⟩⟩
  · exact DownloadCtx.writtenSize_put_failed (htracks.good hgood) hgood (OutStream.bad_write _ _ _)
  · rw [DownloadCtx.put_hasher, DownloadCtx.put_hasher, ← hhash]
    change blobHash hexDigest ([] ++ data.take maxOffset ++ data.drop maxOffset) = _
    rw [List.nil_append, List.take_append_drop]

end

/-- Every download that returns leaves the blob in the file. -/
def StoresRight (hexDigest : List UInt8 → String) (closing : Closing) (uri : Uri)
    (expectedSize : UInt64) : Prop :=
  ∀ env filepath file file',
    downloadBlob hexDigest closing env uri filepath expectedSize file = .ok () file' →
      ∃ content, file' = some content ∧ RightFile hexDigest uri expectedSize content

/-- The file is right after every return exactly if closing a right file leaves it right, and
the expected size is not the value a failed write leaves in the counter, unless nothing has
the hash. -/
theorem stores_right_iff (hexDigest : List UInt8 → String) (closing : Closing) (uri : Uri)
    (expectedSize : UInt64) :
    StoresRight hexDigest closing uri expectedSize ↔
      (∀ content, content.length ≤ maxOffset → RightFile hexDigest uri expectedSize content →
        RightFile hexDigest uri expectedSize (closing.file content)) ∧
      (expectedSize = maxSize → ∀ data : List UInt8, data.length < UInt64.size + maxOffset →
        blobHash hexDigest data ≠ uri.digest.hash) := by
  constructor
  · intro hstores
    refine ⟨fun content hmax hright => ?_, fun hexpected data hlength hhash => ?_⟩
    · have hrun := downloadBlob_offline (fun _ => some content) rfl hright hmax closing "" none
      obtain ⟨content', hfile, hright'⟩ := hstores _ _ _ _ hrun
      cases hfile
      exact hright'
    · -- the file is shorter than expected
      cases hexpected
      obtain ⟨env, content, hrun⟩ := downloadBlob_failed hlength hhash closing
      obtain ⟨content', hfile, hright⟩ := hstores _ _ _ _ hrun
      cases hfile
      have hle := closing.length_le content
      rw [hright.length] at hle
      exact absurd hle (by decide)
  · rintro ⟨hclose, hnone⟩ env filepath file file' hrun
    obtain ⟨_, ctx, hrequest, hsize, hhash, rfl⟩ := downloadBlob_eq_ok.mp hrun
    obtain ⟨htracks, hexpected⟩ := tracks_of_requestBlob hrequest
    refine ⟨_, rfl, ?_⟩
    cases hgood : ctx.outStream.good with
    | true =>
      have hcontent := htracks.content_eq hgood (hsize.trans hexpected.symm)
      refine hclose _ htracks.bound ⟨?_, ?_⟩
      · rw [hcontent, ← (htracks.good hgood).written, hsize]
      · rw [hcontent, hhash]
    | false =>
      rcases htracks.bad hgood with hmax | ⟨hzero, hnil⟩
      · exact absurd hhash (hnone (hsize.symm.trans hmax) _ htracks.hashed)
      · -- nothing was expected, and nothing written
        have hexpected' : expectedSize = 0 := hsize.symm.trans hzero
        have hempty := htracks.empty (hexpected.trans hexpected')
        refine hclose _ htracks.bound ⟨?_, ?_⟩
        · rw [hempty, hexpected']
          rfl
        · rw [hempty, ← hhash, hnil]

/-- A hash that tells one blob from the rest. -/
def markHash (content : List UInt8) : String :=
  String.ofList (List.replicate 64 (if content = [1] then 'A' else 'B'))

theorem size_markHash : (blobHash markHash [1]).utf8ByteSize = 64 := by decide +kernel

def markUri : Uri where
  digest := ⟨"sha256:" ++ blobHash markHash [1], blobHash markHash [1], size_markHash⟩
  app := "app"
  factory := "factory"
  repo := "factory/app"
  registryHostname := "hub.io"

/-- No space is left where the stream is closed. -/
def fullDisk : Closing where
  file _ := []
  length_le _ := Nat.zero_le _

/-- The blob is put into the stream, and the file is empty. -/
theorem lost_blob_returned :
    downloadBlob markHash fullDisk (OfflineRegistry.env (fun _ => some [1]) markUri.digest.hash)
        markUri "app.tgz" 1 none = .ok () (some []) ∧
      ¬ RightFile markHash markUri 1 [] := by
  have hright : RightFile markHash markUri 1 [1] := ⟨rfl, rfl⟩
  refine ⟨downloadBlob_offline (fun _ => some [1]) rfl hright (by decide) fullDisk _ _, ?_⟩
  intro h
  exact absurd h.length (by decide)

end RegistryClient
end Docker
end AkLite
