/-
What a fetch asks the registry for.

The steps of `fetch` that talk to the registry are written once more, with a log of what
they ask for.  Without the log they are the steps of the engine.  The manifest of an app
says what else to ask for.  Layer metadata are asked for even if the manifest marks none:
the descriptor that stands for missing metadata has the digest of the empty text, and it
counts as a descriptor.
-/
import AkLite.Engine.Pulled
import AkLite.Lib.Logged

namespace AkLite
namespace Docker
namespace RestorableAppEngine

open Lib
open Client (App UsageInfo)

/-! ## The steps with a log -/

inductive RequestKind where
  | manifest
  | archive
  | layersMeta
  | layersManifest
  deriving DecidableEq, Repr

/-- What the registry is asked for. -/
structure Request where
  kind : RequestKind
  digest : HashedDigest
  deriving DecidableEq, Repr

abbrev Asking := EStateM Exn (Logged Store Request)

namespace Asking

def lift {α : Type} (x : Except String α) : Asking α := quietly (RestorableAppEngine.lift x)

def request (kind : RequestKind) (uri : Uri) : Asking Unit := record ⟨kind, uri.digest⟩

/-- A blob is asked for when its file is open. -/
def requestBlob (kind : RequestKind) (env : FetchEnv) (uri : Uri) (name : String) (size : Int) :
    Asking Unit :=
  if env.downloadBlob uri name size = .unopened then pure () else request kind uri

def pullApp (tk : Toolkit) (env : FetchEnv) (uri : Uri) : Asking Unit := do
  quietly (createDirectories (appDir uri))
  request .manifest uri
  let text ← lift (env.getAppManifest uri Manifest.format none)
  let manifest ← lift (Manifest.parse tk.canonical (tk.parseJSON text))
  let digest ← lift do HashedDigest.parse (← manifest.archiveDigest tk.canonical)
  let usage := env.space .archive
  if usage.isOk then
    let needed := UInt64.ofNat (← lift (manifest.archiveSize tk.canonical)) * 3
    if needed.toNat > usage.available then
      throw (.insufficientSpace "skopeo apps" (withRequired usage needed))
  let size ← lift (manifest.archiveSize tk.canonical)
  requestBlob .archive env (uri.createUri digest) (digest.hash ++ Manifest.archiveExt) size
  quietly (storeArchive tk env uri digest text size)

def metadataSizes (tk : Toolkit) (env : FetchEnv) (uri : Uri) (desc : Descriptor) :
    Asking (Option (UInt64 × UInt64)) :=
  if desc.isPresent then
    tryCatch (do
      requestBlob .layersMeta env (uri.createUri desc.digest) desc.digest.hash desc.size
      some <$> quietly (downloadPreciseSizes tk env uri desc)) fun _ => pure none
  else pure none

def estimatedSizes (tk : Toolkit) (env : FetchEnv) (uri : Uri) (manifest : Manifest)
    (stored : String → Bool) : Asking (Option (UInt64 × UInt64)) := do
  let layersManifest ← lift (manifest.layersManifest env.arch)
  match layersManifest with
  | .obj _ =>
    let digestObj ← lift (layersManifest.index "digest")
    match digestObj with
    | .str digest =>
      let sizeObj ← lift (layersManifest.index "size")
      if !sizeObj.isInt64 tk.whole then
        throw (.other "Got invalid layers manifest, missing or incorrect `size` field")
      let layersUri := uri.createUri (← lift (HashedDigest.parse digest))
      let size ← lift sizeObj.asInt64
      request .layersManifest layersUri
      let text ← lift (env.getAppManifest layersUri Manifest.indexFormat (some size))
      lift do
        let skopeo ← getAppUpdateSize tk (← (tk.parseJSON text).index "layers") stored
        return some (skopeo, ← getDockerStoreSizeForAppUpdate skopeo 5)
    | _ =>
      throw (.other "Got invalid layers manifest, missing or incorrect `digest` field")
  | _ => return none

def appUpdateSizes (tk : Toolkit) (env : FetchEnv) (uri : Uri) (manifest : Manifest) :
    Asking (Option (UInt64 × UInt64)) := do
  let desc ← lift (manifest.layersMetaDescr tk.canonical)
  match ← metadataSizes tk env uri desc with
  | some sizes => return some sizes
  | none => estimatedSizes tk env uri manifest (← quietly get).hasBlob

def checkAppUpdateSize (tk : Toolkit) (env : FetchEnv) (uri : Uri) : Asking Unit := do
  let manifest ← lift ((← quietly get).manifest tk (appDir uri))
  if env.arch = "" then return ()
  match ← appUpdateSizes tk env uri manifest with
  | none => return ()
  | some (skopeo, docker) => quietly (checkAvailableStorageInStores env skopeo docker)

def fetchApp (tk : Toolkit) (env : FetchEnv) (app : App) (uri : Uri) : Asking Unit := do
  if !(← quietly (isAppFetched tk app)) then pullApp tk env uri
  checkAppUpdateSize tk env uri
  quietly (pullAppImages tk env uri)

def fetch (tk : Toolkit) (env : FetchEnv) (app : App) : Asking Result := do
  match parseUri app.2 true with
  | .error what => return Exn.result tk (.other what)
  | .ok uri =>
    let res ←
      tryCatch (do
        fetchApp tk env app uri
        return { status := .ok, err := "", stat := undefinedStat })
      fun e => pure (e.result tk)
    if res.status ≠ .ok then
      if (← quietly get).apps.has (appDir uri) then quietly (removeAll (appDir uri))
    return res

end Asking

/-- What a fetch asks the registry for. -/
def requests (tk : Toolkit) (env : FetchEnv) (app : App) (s : Store) : List Request :=
  (after (Asking.fetch tk env app) { state := s, log := [] }).log

/-! ## The log changes nothing -/

section

variable {tk : Toolkit} {env : FetchEnv} {app : App} {uri : Uri} {reg : Registry}

theorem erases_lift {α : Type} (x : Except String α) : Erases (Asking.lift x) (lift x) :=
  Erases.quietly _

theorem erases_requestBlob {α : Type} {kind : RequestKind} {uri' : Uri} {name : String}
    {size : Int} {x : Asking α} {y : Eff α} (hx : Erases x y) :
    Erases (do Asking.requestBlob kind env uri' name size; x) y := by
  unfold Asking.requestBlob
  split
  · exact hx
  · exact hx.record_bind _

theorem erases_pullApp : Erases (Asking.pullApp tk env uri) (pullApp tk env uri) := by
  unfold Asking.pullApp pullApp
  refine (Erases.quietly _).bind fun _ => Erases.record_bind ?_ _
  refine (erases_lift _).bind fun text => (erases_lift _).bind fun manifest => ?_
  refine (erases_lift _).bind fun digest => ?_
  have hsized : Erases (do
      let size ← Asking.lift (manifest.archiveSize tk.canonical)
      Asking.requestBlob .archive env (uri.createUri digest) (digest.hash ++ Manifest.archiveExt)
        size
      quietly (storeArchive tk env uri digest text size)) (do
      let size ← lift (manifest.archiveSize tk.canonical)
      storeArchive tk env uri digest text size) :=
    (erases_lift _).bind fun _ => erases_requestBlob (Erases.quietly _)
  refine Erases.ite ((erases_lift _).bind fun n => ?_) hsized
  exact Erases.ite (fun _ => rfl) hsized

theorem erases_metadataSizes {desc : Descriptor} :
    Erases (Asking.metadataSizes tk env uri desc) (metadataSizes tk env uri desc) := by
  unfold Asking.metadataSizes metadataSizes
  refine Erases.ite (Erases.tryCatch ?_ fun _ => Erases.pure none) (Erases.pure none)
  exact erases_requestBlob ((Erases.quietly _).map some)

theorem lift_bind {α β : Type} (x : Except String α) (f : α → Except String β) :
    lift (x >>= f) = (lift x >>= fun a => lift (f a)) := by
  cases x with
  | ok a => rfl
  | error e => rfl

theorem erases_estimatedSizes {manifest : Manifest} {stored : String → Bool} :
    Erases (Asking.estimatedSizes tk env uri manifest stored)
      (lift (estimatedSizes tk env uri manifest stored)) := by
  unfold Asking.estimatedSizes estimatedSizes
  rw [lift_bind]
  refine (erases_lift _).bind fun layersManifest => ?_
  cases layersManifest with
  | obj fields =>
    dsimp only
    rw [lift_bind]
    refine (erases_lift _).bind fun digestObj => ?_
    cases digestObj with
    | str digest =>
      dsimp only
      rw [lift_bind]
      refine (erases_lift _).bind fun sizeObj => ?_
      cases hint : sizeObj.isInt64 tk.whole with
      | false => exact fun _ => rfl
      | true =>
        simp only [Bool.not_true, Bool.false_eq_true, if_false]
        rw [lift_bind]
        refine (erases_lift _).bind fun digest => ?_
        rw [lift_bind]
        refine (erases_lift _).bind fun size => Erases.record_bind ?_ _
        rw [lift_bind]
        exact (erases_lift _).bind fun text => erases_lift _
    | _ => exact fun _ => rfl
  | _ => exact Erases.pure none

theorem erases_checkAppUpdateSize :
    Erases (Asking.checkAppUpdateSize tk env uri) (checkAppUpdateSize tk env uri) := by
  unfold Asking.checkAppUpdateSize checkAppUpdateSize
  refine (Erases.quietly _).bind fun s => (erases_lift _).bind fun manifest => ?_
  refine Erases.ite (Erases.pure ()) (Erases.bind ?_ fun sizes => ?_)
  · unfold Asking.appUpdateSizes appUpdateSizes
    refine (erases_lift _).bind fun desc => erases_metadataSizes.bind fun sizes => ?_
    cases sizes with
    | some sizes => exact Erases.pure _
    | none => exact (Erases.quietly _).bind fun s => erases_estimatedSizes
  · cases sizes with
    | none => exact Erases.pure ()
    | some sizes => exact Erases.quietly _

theorem erases_fetchApp : Erases (Asking.fetchApp tk env app uri) (fetchApp tk env app uri) := by
  unfold Asking.fetchApp fetchApp
  refine (Erases.quietly _).bind fun fetched => ?_
  have hrest : Erases (do
      Asking.checkAppUpdateSize tk env uri
      quietly (pullAppImages tk env uri)) (do
      checkAppUpdateSize tk env uri
      pullAppImages tk env uri) :=
    erases_checkAppUpdateSize.bind fun _ => Erases.quietly _
  exact Erases.ite (erases_pullApp.bind fun _ => hrest) hrest

/-- Without the log it is the engine's call. -/
theorem erases_fetch : Erases (Asking.fetch tk env app) (fetch tk env app) := by
  unfold Asking.fetch fetch
  cases parseUri app.2 true with
  | error what => exact Erases.pure _
  | ok uri =>
    refine Erases.bind (Erases.tryCatch ?_ fun e => Erases.pure _) fun res => ?_
    · exact erases_fetchApp.bind fun _ => Erases.pure _
    · refine Erases.ite ((Erases.quietly _).bind fun s => ?_) (Erases.pure _)
      exact Erases.ite ((Erases.quietly _).bind fun _ => Erases.pure _) (Erases.pure _)

/-! ## Digests in a manifest -/

/-- The digest stands in the value. -/
def Mentions (json : Json) (digest : HashedDigest) : Prop :=
  ∃ text, json.Occurs text ∧ HashedDigest.parse text = .ok digest

/-- The digest of the URI, or one that the manifest has. -/
def Known (uri : Uri) (json : Json) (digest : HashedDigest) : Prop :=
  digest = uri.digest ∨ Mentions json digest

def metadataMark (json : Json) : Except String String := do
  (← (← (← (← json.index "layers").elem 1).index "annotations").index "layers-meta").asString

/-- The second layer of the manifest is annotated as metadata. -/
def MarksMetadata (json : Json) : Prop := metadataMark json = .ok "v1"

/-- The digest is known, and metadata are marked. -/
def Request.Known (uri : Uri) (json : Json) (r : Request) : Prop :=
  RestorableAppEngine.Known uri json r.digest ∧ (r.kind = .layersMeta → MarksMetadata json)

theorem json_of_parse {canonical : Json → String} {json : Json} {manifest : Manifest}
    (h : Manifest.parse canonical json = .ok manifest) : manifest.json = json := by
  obtain ⟨_, _, h⟩ := bind_eq_ok.mp h
  obtain ⟨_, _, h⟩ := bind_eq_ok.mp h
  obtain ⟨version, _, h⟩ := bind_eq_ok.mp h
  obtain ⟨_, h⟩ := ite_error_eq_ok.mp h
  obtain ⟨_, h⟩ := ite_error_eq_ok.mp h
  cases h
  rfl

/-- A manifest in the store that has the hash of the URI is the one in the registry. -/
def Store.HoldsManifest (tk : Toolkit) (reg : Registry) (uri : Uri) (s : Store) : Prop :=
  ∀ text, s.apps.read (manifestPath uri) = some text → tk.sha256 text = uri.digest.hash →
    text = reg uri.digest.hash

/-- The manifest of the app. -/
def Registry.manifest (tk : Toolkit) (reg : Registry) (uri : Uri) : Json :=
  tk.parseJSON (reg uri.digest.hash)

/-- The manifest can be read, and it marks no metadata. -/
def NoMetadata (tk : Toolkit) (json : Json) : Prop :=
  ¬MarksMetadata json ∧ ∃ manifest desc, Manifest.parse tk.canonical json = .ok manifest ∧
    manifest.layersMetaDescr tk.canonical = .ok desc

/-- The app is in the store, or the registry has its archive. -/
def IsPullable (tk : Toolkit) (reg : Registry) (app : App) (uri : Uri) (s : Store) : Prop :=
  (∃ t, isAppFetched tk app s = .ok true t) ∨
    (∃ t, isAppFetched tk app s = .ok false t) ∧
      ∃ digest compose, Archived tk reg uri digest compose

theorem ne_empty_of_parse {text : String} {digest : HashedDigest}
    (h : HashedDigest.parse text = .ok digest) : text ≠ "" := by
  rintro rfl
  cases h

theorem Mentions.of_text {json v : Json} {text : String} {digest : HashedDigest}
    (h : HashedDigest.parse text = .ok digest) (htext : v.asString = .ok text)
    (hv : ∀ t, t ≠ "" → v.Occurs t → json.Occurs t) : Mentions json digest :=
  ⟨text, hv text (ne_empty_of_parse h) (.self htext), h⟩

theorem mentions_descriptor {json : Json} {desc : Descriptor}
    (h : Descriptor.parse tk.canonical json = .ok desc) : Mentions json desc.digest := by
  obtain ⟨_, _, h⟩ := bind_eq_ok.mp h
  obtain ⟨_, _, h⟩ := bind_eq_ok.mp h
  obtain ⟨_, _, h⟩ := bind_eq_ok.mp h
  obtain ⟨value, hvalue, h⟩ := bind_eq_ok.mp h
  obtain ⟨text, htext, h⟩ := bind_eq_ok.mp h
  obtain ⟨digest, hdigest, h⟩ := bind_eq_ok.mp h
  obtain ⟨_, _, h⟩ := bind_eq_ok.mp h
  obtain ⟨_, _, h⟩ := bind_eq_ok.mp h
  obtain ⟨_, _, h⟩ := bind_eq_ok.mp h
  obtain ⟨_, _, h⟩ := bind_eq_ok.mp h
  cases h
  exact .of_text hdigest htext fun t ht hoccurs => hoccurs.of_index hvalue ht

variable {manifest : Manifest} {digest : HashedDigest}

theorem mentions_archive
    (h : (do HashedDigest.parse (← manifest.archiveDigest tk.canonical)) = .ok digest) :
    Mentions manifest.json digest := by
  obtain ⟨text, htext, hdigest⟩ := bind_eq_ok.mp h
  obtain ⟨archive, harchive, htext⟩ := bind_eq_ok.mp htext
  obtain ⟨value, hvalue, htext⟩ := bind_eq_ok.mp htext
  obtain ⟨text', htext', hnonempty⟩ := bind_eq_ok.mp htext
  obtain ⟨_, hnonempty⟩ := ite_error_eq_ok.mp hnonempty
  cases hnonempty
  obtain ⟨layers, hlayers, harchive⟩ := bind_eq_ok.mp harchive
  refine .of_text hdigest htext' fun t ht hoccurs => ?_
  exact ((hoccurs.of_index hvalue ht).of_elem harchive ht).of_index hlayers ht

/-- Metadata that are marked stand in the manifest, and without a mark there are none: what is
missing reads as the empty text. -/
theorem layersMeta_cases {desc : Descriptor}
    (h : manifest.layersMetaDescr tk.canonical = .ok desc) :
    MarksMetadata manifest.json ∧ Mentions manifest.json desc.digest ∨
      ¬MarksMetadata manifest.json ∧ desc = .empty := by
  obtain ⟨layers, hlayers, h⟩ := bind_eq_ok.mp h
  unfold MarksMetadata metadataMark
  rw [hlayers, ok_bind]
  split at h
  · next hsize =>
    cases h
    refine .inr ⟨fun hmark => ?_, rfl⟩
    obtain ⟨layer, hlayer, hmark⟩ := bind_eq_ok.mp hmark
    cases Json.elem_of_size_le (Nat.le_of_lt_succ hsize) hlayer
    exact absurd hmark (by decide)
  obtain ⟨layer, hlayer, h⟩ := bind_eq_ok.mp h
  obtain ⟨annotated, hannotated, h⟩ := bind_eq_ok.mp h
  rw [hlayer, ok_bind]
  cases annotated with
  | false =>
    cases h
    rw [Json.index_of_not_isMember hannotated]
    exact .inr ⟨by decide, rfl⟩
  | true =>
    obtain ⟨annotations, hannotations, h⟩ := bind_eq_ok.mp h
    obtain ⟨marked, hmarked, h⟩ := bind_eq_ok.mp h
    rw [hannotations, ok_bind]
    cases marked with
    | false =>
      cases h
      rw [Json.index_of_not_isMember hmarked]
      exact .inr ⟨by decide, rfl⟩
    | true =>
      obtain ⟨mark, hmark, h⟩ := bind_eq_ok.mp h
      obtain ⟨version, hversion, h⟩ := bind_eq_ok.mp h
      rw [hmark, ok_bind, hversion]
      split at h
      · next hother =>
        cases h
        exact .inr ⟨fun hv => hother (Except.ok.inj hv), rfl⟩
      · next hv =>
        obtain ⟨text, hoccurs, hdigest⟩ := mentions_descriptor h
        have htext := ne_empty_of_parse hdigest
        exact .inl ⟨congrArg _ (not_not.mp hv), text,
          (hoccurs.of_elem hlayer htext).of_index hlayers htext, hdigest⟩

theorem mem_of_findArch {arch : String} {entries : List Json} {entry : Json}
    (h : Manifest.findArch arch entries = .ok entry) : entry = .null ∨ entry ∈ entries := by
  induction entries with
  | nil =>
    cases h
    exact .inl rfl
  | cons first rest ih =>
    obtain ⟨platform, _, h⟩ := bind_eq_ok.mp h
    obtain ⟨architecture, _, h⟩ := bind_eq_ok.mp h
    obtain ⟨name, _, h⟩ := bind_eq_ok.mp h
    split at h
    · cases h
      exact .inr List.mem_cons_self
    · exact (ih h).imp_right (List.mem_cons_of_mem _)

/-- The layers of the architecture stand in the manifest. -/
theorem mentions_layersManifest {arch text : String} {layers : Json}
    (h : manifest.layersManifest arch = .ok layers)
    (htext : layers.index "digest" = .ok (.str text))
    (hdigest : HashedDigest.parse text = .ok digest) : Mentions manifest.json digest := by
  refine .of_text hdigest (v := .str text) rfl fun t ht hoccurs => ?_
  have hlayers := hoccurs.of_index htext ht
  obtain ⟨manifests, hmanifests, h⟩ := bind_eq_ok.mp h
  refine Json.Occurs.of_index hmanifests ht ?_
  cases manifests with
  | arr entries =>
    rcases mem_of_findArch h with rfl | hmem
    · exact absurd hlayers (Json.not_occurs_null ht)
    · exact .item hmem hlayers
  | _ =>
    cases h
    exact absurd hlayers (Json.not_occurs_null ht)

/-! ## What is logged -/

variable {I : List Request → Prop} {s : Logged Store Request}

theorem wp_asking_lift_bind {α β : Type} {x : Except String α} {f : α → Asking β}
    {Q : β → Logged Store Request → Prop} {E : Exn → Logged Store Request → Prop}
    (hE : ∀ what, E (.other what) s) (hf : ∀ a, x = .ok a → wp (f a) Q E s) :
    wp (Asking.lift x >>= f) Q E s := by
  rw [wp_bind, Asking.lift, wp_quietly, wp_lift]
  cases x with
  | error what => exact hE what
  | ok a => exact hf a rfl

theorem wp_requestBlob {kind : RequestKind} {uri' : Uri} {name : String} {size : Int}
    (hI : ∀ log, I log → I (⟨kind, uri'.digest⟩ :: log)) (hs : I s.log) :
    wp (Asking.requestBlob kind env uri' name size) (fun _ t => I t.log) (fun _ _ => False) s := by
  unfold Asking.requestBlob
  split
  · exact hs
  · exact hI _ hs

/-- The estimate asks for what the manifest has. -/
theorem wp_estimatedSizes_log {stored : String → Bool}
    (hI : ∀ digest log, Mentions manifest.json digest → I log →
      I (⟨.layersManifest, digest⟩ :: log)) (hs : I s.log) :
    wp (Asking.estimatedSizes tk env uri manifest stored) (fun _ t => I t.log)
      (fun _ t => I t.log) s := by
  unfold Asking.estimatedSizes
  refine wp_asking_lift_bind (fun _ => hs) fun layersManifest hlayers => ?_
  cases layersManifest with
  | obj fields =>
    refine wp_asking_lift_bind (fun _ => hs) fun digestObj hdigestObj => ?_
    cases digestObj with
    | str text =>
      refine wp_asking_lift_bind (fun _ => hs) fun sizeObj _ => ?_
      rw [wp_ite]
      split
      · exact hs
      · refine wp_asking_lift_bind (fun _ => hs) fun digest hdigest => ?_
        refine wp_asking_lift_bind (fun _ => hs) fun size _ => ?_
        have hlog := hI digest s.log (mentions_layersManifest hlayers hdigestObj hdigest) hs
        rw [wp_bind, Asking.request, wp_record]
        exact wp_asking_lift_bind (fun _ => hlog) fun text _ => wp_quietly_log hlog
    | _ => exact hs
  | _ => exact hs

/-- The size check asks for the metadata and the layers of the manifest. -/
theorem wp_checkAppUpdateSize_log {json : Json}
    (hmanifest : s.state.manifest tk (appDir uri) = Manifest.parse tk.canonical json)
    (hI : ∀ r log, r.Known uri json → I log → I (r :: log)) (hs : I s.log)
    (hmarked : ¬NoMetadata tk json) :
    wp (Asking.checkAppUpdateSize tk env uri) (fun _ t => I t.log) (fun _ t => I t.log) s := by
  unfold Asking.checkAppUpdateSize
  rw [wp_bind, wp_quietly, wp_get]
  refine wp_asking_lift_bind (fun _ => hs) fun manifest hparsed => ?_
  rw [hmanifest] at hparsed
  have hjson := json_of_parse hparsed
  rw [wp_ite]
  split
  · exact hs
  · rw [wp_bind]
    refine wp_mono (Q := fun _ t => I t.log) (E := fun _ t => I t.log) ?_ (fun sizes t ht => ?_)
      fun _ _ h => h
    · unfold Asking.appUpdateSizes
      refine wp_asking_lift_bind (fun _ => hs) fun desc hdesc => ?_
      have hlog : ∀ log, I log → I (⟨.layersMeta, desc.digest⟩ :: log) := by
        intro log
        rcases hjson ▸ layersMeta_cases hdesc with ⟨hmarks, hmentions⟩ | ⟨hnone, _⟩
        · exact hI _ log ⟨.inr hmentions, fun _ => hmarks⟩
        · exact absurd ⟨hnone, manifest, desc, hparsed, hdesc⟩ hmarked
      rw [wp_bind]
      refine wp_mono (Q := fun _ t => I t.log) (E := fun _ t => I t.log) ?_
        (fun sizes t ht => ?_) fun _ _ h => h
      · unfold Asking.metadataSizes
        rw [wp_ite]
        split
        · rw [wp_tryCatch, wp_bind]
          refine wp_mono (wp_requestBlob hlog hs) (fun _ t ht => ?_) fun _ _ h => h.elim
          rw [wp_map]
          exact wp_quietly_log ht
        · exact hs
      · cases sizes with
        | some sizes => exact ht
        | none =>
          rw [wp_bind, wp_quietly, wp_get]
          refine wp_estimatedSizes_log (fun digest log hmentions => ?_) ht
          rw [hjson] at hmentions
          exact hI _ log ⟨.inr hmentions, fun h => by cases h⟩
    · cases sizes with
      | none => exact ht
      | some sizes => exact wp_quietly_log ht

theorem wp_pullApp_log (hserves : env.Serves tk reg)
    (hI : ∀ r log, r.Known uri (reg.manifest tk uri) → I log → I (r :: log)) (hs : I s.log) :
    wp (Asking.pullApp tk env uri) (fun _ t => I t.log) (fun _ t => I t.log) s := by
  unfold Asking.pullApp
  rw [wp_bind, wp_quietly, createDirectories, wp_modify, wp_bind, Asking.request, wp_record]
  have hlog := hI ⟨.manifest, uri.digest⟩ _ ⟨.inl rfl, fun h => by cases h⟩ hs
  refine wp_asking_lift_bind (fun _ => hlog) fun text htext => ?_
  obtain ⟨rfl, _⟩ := hserves.manifest _ _ _ _ htext
  refine wp_asking_lift_bind (fun _ => hlog) fun manifest hparsed => ?_
  refine wp_asking_lift_bind (fun _ => hlog) fun digest hdigest => ?_
  have hmentions := mentions_archive hdigest
  rw [json_of_parse hparsed] at hmentions
  have hsized : ∀ t : Logged Store Request, I t.log → wp (do
      let size ← Asking.lift (manifest.archiveSize tk.canonical)
      Asking.requestBlob .archive env (uri.createUri digest) (digest.hash ++ Manifest.archiveExt)
        size
      quietly (storeArchive tk env uri digest (reg uri.digest.hash) size))
      (fun _ t => I t.log) (fun _ t => I t.log) t := by
    intro t ht
    refine wp_asking_lift_bind (fun _ => ht) fun size _ => ?_
    rw [wp_bind]
    refine wp_mono (wp_requestBlob (fun log => hI _ log ⟨.inr hmentions, fun h => by cases h⟩) ht)
      (fun _ u hu => ?_) fun _ _ h => h.elim
    exact wp_quietly_log hu
  rw [wp_ite]
  split
  · refine wp_asking_lift_bind (fun _ => hlog) fun size _ => ?_
    rw [wp_ite]
    split
    · exact hlog
    · refine hsized _ ?_
      exact hlog
  · refine hsized _ ?_
    exact hlog

theorem manifest_of_read {s : Store}
    (h : s.apps.read (manifestPath uri) = some (reg uri.digest.hash)) :
    s.manifest tk (appDir uri) = Manifest.parse tk.canonical (reg.manifest tk uri) := by
  rw [manifestPath] at h
  rw [Store.manifest, Store.parseJSONFile, h]
  rfl

theorem manifest_of_isAppFetched {s t : Store} (huri : parseUri app.2 true = .ok uri)
    (hstored : s.HoldsManifest tk reg uri) (hrun : isAppFetched tk app s = .ok true t) :
    t.manifest tk (appDir uri) = Manifest.parse tk.canonical (reg.manifest tk uri) := by
  obtain ⟨text, hread, hhash⟩ := (fetched_of_run huri hrun).1.archive.text
  cases hstored text hread hhash
  rw [(complete_of_run huri hrun).same_manifest, manifest_of_read hread]

theorem wp_fetchApp_log (hserves : env.Serves tk reg) (huri : parseUri app.2 true = .ok uri)
    (hstored : s.state.HoldsManifest tk reg uri)
    (hI : ∀ r log, r.Known uri (reg.manifest tk uri) → I log → I (r :: log))
    (hmarked : IsPullable tk reg app uri s.state → ¬NoMetadata tk (reg.manifest tk uri))
    (hs : I s.log) :
    wp (Asking.fetchApp tk env app uri) (fun _ t => I t.log) (fun _ t => I t.log) s := by
  -- From the size check on, once the manifest is in the store.
  have hrest : ∀ t : Logged Store Request, I t.log →
      t.state.manifest tk (appDir uri) = Manifest.parse tk.canonical (reg.manifest tk uri) →
      IsPullable tk reg app uri s.state →
      wp (do
        Asking.checkAppUpdateSize tk env uri
        quietly (pullAppImages tk env uri)) (fun _ t => I t.log) (fun _ t => I t.log) t := by
    intro t ht hmanifest hpullable
    rw [wp_bind]
    refine wp_mono (wp_checkAppUpdateSize_log hmanifest hI ht (hmarked hpullable)) ?_
      fun _ _ h => h
    exact fun _ u hu => wp_quietly_log hu
  unfold Asking.fetchApp
  rw [wp_bind, wp_quietly]
  refine wp_of_run (fun fetched t hrun => ?_) fun _ _ _ => hs
  cases fetched with
  | true =>
    rw [if_neg (by decide)]
    exact hrest _ hs (manifest_of_isAppFetched huri hstored hrun) (.inl ⟨t, hrun⟩)
  | false =>
    rw [if_pos (by decide), wp_bind]
    -- The state after the pull is known from the engine's own steps.
    have hserving := @wp_pullApp_serving tk env uri t reg hserves
    have hpulled := erases_pullApp.wp (s := { s with state := t }) hserving
    refine wp_mono (wp_and (wp_pullApp_log hserves hI hs) hpulled) ?_ fun _ _ h => h.1
    rintro _ u ⟨hu, digest, compose, hfresh, hread, _⟩
    exact hrest u hu (manifest_of_read hread) (.inr ⟨⟨t, hrun⟩, digest, compose, hfresh.archived⟩)

/-- The log of the steps is the one of the call. -/
theorem requests_of_fetchApp {s : Store} (huri : parseUri app.2 true = .ok uri)
    (h : wp (Asking.fetchApp tk env app uri) (fun _ t => I t.log) (fun _ t => I t.log)
      { state := s, log := [] }) : I (requests tk env app s) := by
  refine after_of_wp (P := fun t : Logged Store Request => I t.log) ?_
  unfold Asking.fetch
  simp only [huri]
  rw [wp_bind, wp_tryCatch, wp_bind]
  have hend : ∀ (res : Result) (t : Logged Store Request), I t.log → wp (do
      if res.status ≠ .ok then
        if (← quietly get).apps.has (appDir uri) then quietly (removeAll (appDir uri))
      return res : Asking Result) (fun _ t => I t.log) (fun _ t => I t.log) t := by
    intro res t ht
    rw [wp_ite]
    split
    · rw [wp_bind, wp_quietly, wp_get, wp_ite]
      split
      · rw [wp_bind]
        exact wp_mono (wp_quietly_log ht) (fun _ _ h => h) fun _ _ h => h
      · exact ht
    · exact ht
  refine wp_mono h (fun _ t ht => ?_) fun e t ht => ?_
  · rw [wp_pure]
    exact hend _ t ht
  · rw [wp_pure]
    exact hend _ t ht

/-! ## Without metadata -/

/-- What the registry has is served, and the architecture is known. -/
def servingArch (tk : Toolkit) (reg : Registry) : FetchEnv :=
  { serving tk reg with arch := "amd64" }

theorem serves_servingArch : (servingArch tk reg).Serves tk reg :=
  ⟨serves_serving.manifest, serves_serving.blob⟩

theorem not_unopened_servingArch (uri : Uri) (name : String) (size : Int) :
    (servingArch tk reg).downloadBlob uri name size ≠ .unopened := by
  intro h
  unfold servingArch serving at h
  dsimp only at h
  split at h
  · cases h
  · cases h

/-- The digest of the empty text, asked for as metadata. -/
def emptyRequest : Request := ⟨.layersMeta, Descriptor.emptyDigest⟩

/-- Without metadata it is asked for. -/
theorem wp_checkAppUpdateSize_empty (hmanifest : s.state.manifest tk (appDir uri) = .ok manifest)
    (hdesc : manifest.layersMetaDescr tk.canonical = .ok .empty) :
    wp (Asking.checkAppUpdateSize tk (servingArch tk reg) uri)
      (fun _ t => emptyRequest ∈ t.log) (fun _ t => emptyRequest ∈ t.log)
      s := by
  have harch : ¬ (servingArch tk reg).arch = "" := by
    show ¬ "amd64" = ""
    decide
  unfold Asking.checkAppUpdateSize
  rw [wp_bind, wp_quietly, wp_get, wp_bind, Asking.lift, wp_quietly, wp_lift, hmanifest]
  dsimp only
  rw [if_neg harch, wp_bind]
  refine wp_mono (Q := fun _ t => emptyRequest ∈ t.log)
    (E := fun _ t => emptyRequest ∈ t.log) ?_ (fun sizes t ht => ?_) fun _ _ h => h
  · unfold Asking.appUpdateSizes
    rw [wp_bind, Asking.lift, wp_quietly, wp_lift, hdesc]
    dsimp only
    rw [wp_bind]
    refine wp_mono (Q := fun _ t => emptyRequest ∈ t.log)
      (E := fun _ t => emptyRequest ∈ t.log) ?_ (fun sizes t ht => ?_) fun _ _ h => h
    · unfold Asking.metadataSizes
      rw [if_pos (by decide), wp_tryCatch, wp_bind, Asking.requestBlob,
        if_neg (not_unopened_servingArch _ _ _), Asking.request, wp_record, wp_map]
      exact wp_quietly_log List.mem_cons_self
    · cases sizes with
      | some sizes => exact ht
      | none =>
        rw [wp_bind, wp_quietly, wp_get]
        exact wp_estimatedSizes_log (fun _ _ _ h => List.mem_cons_of_mem _ h) ht
  · cases sizes with
    | none => exact ht
    | some sizes => exact wp_quietly_log ht

theorem wp_fetchApp_empty (huri : parseUri app.2 true = .ok uri)
    (hstored : s.state.HoldsManifest tk reg uri) (hpullable : IsPullable tk reg app uri s.state)
    (hnone : NoMetadata tk (reg.manifest tk uri)) :
    wp (Asking.fetchApp tk (servingArch tk reg) app uri)
      (fun _ t => emptyRequest ∈ t.log) (fun _ t => emptyRequest ∈ t.log)
      s := by
  obtain ⟨hnone, manifest, desc, hparsed, hdesc⟩ := hnone
  rw [← json_of_parse hparsed] at hnone
  obtain rfl : desc = .empty := ((layersMeta_cases hdesc).resolve_left fun h => hnone h.1).2
  have hrest : ∀ t : Logged Store Request,
      t.state.manifest tk (appDir uri) = Manifest.parse tk.canonical (reg.manifest tk uri) →
      wp (do
        Asking.checkAppUpdateSize tk (servingArch tk reg) uri
        quietly (pullAppImages tk (servingArch tk reg) uri))
        (fun _ t => emptyRequest ∈ t.log) (fun _ t => emptyRequest ∈ t.log)
        t := by
    intro t hmanifest
    rw [wp_bind]
    refine wp_mono (wp_checkAppUpdateSize_empty (hmanifest.trans hparsed) hdesc) ?_
      fun _ _ h => h
    exact fun _ u hu => wp_quietly_log hu
  unfold Asking.fetchApp
  rw [wp_bind, wp_quietly]
  rcases hpullable with ⟨t, hrun⟩ | ⟨⟨t, hrun⟩, digest, compose, harchived⟩
  · refine wp_of_ok hrun ?_
    rw [if_neg (by decide)]
    exact hrest _ (manifest_of_isAppFetched huri hstored hrun)
  · refine wp_of_ok hrun ?_
    rw [if_pos (by decide), wp_bind]
    refine wp_mono (erases_pullApp.wp (wp_pullApp_archived harchived)) ?_ fun _ _ h => h.elim
    intro _ u hu
    refine hrest u ?_
    rw [hu]
    exact manifest_of_read holds_withVersion.text

/-- Every digest that is asked for is known, and metadata are asked for only if the manifest marks
them, exactly if the manifest marks them whenever the call gets to the size check. -/
theorem requests_known_iff (tk : Toolkit) (reg : Registry) (app : App) (uri : Uri) (s : Store)
    (huri : parseUri app.2 true = .ok uri) (hstored : s.HoldsManifest tk reg uri) :
    (∀ env, env.Serves tk reg → ∀ r ∈ requests tk env app s, r.Known uri (reg.manifest tk uri)) ↔
      (IsPullable tk reg app uri s → ¬NoMetadata tk (reg.manifest tk uri)) := by
  constructor
  · intro h hpullable hnone
    refine hnone.1 ((h (servingArch tk reg) serves_servingArch emptyRequest ?_).2 rfl)
    exact requests_of_fetchApp (I := fun log => emptyRequest ∈ log) huri
      (wp_fetchApp_empty huri hstored hpullable hnone)
  · intro h env hserves
    refine requests_of_fetchApp (I := fun log => ∀ r ∈ log, r.Known uri (reg.manifest tk uri))
      huri (wp_fetchApp_log (I := fun log => ∀ r ∈ log, r.Known uri (reg.manifest tk uri)) hserves
        huri hstored ?_ h (List.forall_mem_nil _))
    exact fun r log hknown hlog => List.forall_mem_cons.mpr ⟨hknown, hlog⟩

end

/-! ## Two manifests -/

def letterRegistry : Registry := fun hash => String.ofList (hash.toList.take 1)

def letterFetch : App := ("app", letterUri "app" "m")

theorem size_letterHash_m : (letterHash "m").utf8ByteSize = 64 := by decide +kernel

def letterFetchUri : Uri where
  digest := ⟨"sha256:" ++ letterHash "m", letterHash "m", size_letterHash_m⟩
  app := "app"
  factory := "factory"
  repo := "factory/app"
  registryHostname := "hub.io"

def noApps : Store := { apps := { entries := [] }, blobs := [] }

/-- The second layer of the manifest is marked as metadata. -/
def markedToolkit : Toolkit :=
  { letterToolkit with
    parseJSON := fun _ =>
      .obj [("annotations", .obj [("compose-app", .str "v1")]),
        ("layers", .arr [.obj [("digest", letterDigest "a"), ("size", .int 1)],
          .obj [("digest", letterDigest "d"), ("size", .int 1), ("mediaType", .str "json"),
            ("annotations", .obj [("layers-meta", .str "v1")])]])] }

theorem holdsManifest_noApps (tk : Toolkit) (reg : Registry) (uri : Uri) :
    noApps.HoldsManifest tk reg uri := by
  intro text h
  cases h

/-- With marked metadata the registry is asked for known digests only. -/
theorem marked_requests_known :
    parseUri letterFetch.2 true = .ok letterFetchUri ∧
    ∀ env, env.Serves markedToolkit letterRegistry →
      ∀ r ∈ requests markedToolkit env letterFetch noApps,
        r.Known letterFetchUri (letterRegistry.manifest markedToolkit letterFetchUri) := by
  refine ⟨by decide +kernel, ?_⟩
  refine (requests_known_iff markedToolkit letterRegistry letterFetch letterFetchUri noApps
    (by decide +kernel) (holdsManifest_noApps _ _ _)).mpr fun _ hnone => hnone.1 ?_
  show metadataMark _ = _
  decide +kernel

/-- The manifest has no metadata, and the registry is asked for the empty text. -/
theorem empty_text_requested :
    (servingArch letterToolkit letterRegistry).Serves letterToolkit letterRegistry ∧
      NoMetadata letterToolkit (letterRegistry.manifest letterToolkit letterFetchUri) ∧
      emptyRequest ∈ requests letterToolkit (servingArch letterToolkit letterRegistry)
        letterFetch noApps ∧
      ¬ Known letterFetchUri (letterRegistry.manifest letterToolkit letterFetchUri)
        Descriptor.emptyDigest := by
  have hunmarked : metadataMark (letterRegistry.manifest letterToolkit letterFetchUri) ≠
      .ok "v1" := by decide +kernel
  refine ⟨serves_servingArch, ⟨hunmarked, _, .empty, rfl, by decide +kernel⟩, by decide +kernel, ?_⟩
  rintro (h | ⟨text, hoccurs, hparse⟩)
  · revert h
    decide +kernel
  · change Json.Occurs text (.obj [("annotations", .obj [("compose-app", .str "v1")]),
      ("layers", .arr [.obj [("digest", letterDigest "a"), ("size", .int 1)]])]) at hoccurs
    have hcases : text = "v1" ∨ text = "sha256:" ++ letterHash "a" ∨ text = toString (1 : Int) := by
      simpa [letterDigest] using hoccurs
    rcases hcases with rfl | rfl | rfl
    · cases hparse
    · revert hparse
      decide +kernel
    · cases hparse

end RestorableAppEngine
end Docker
end AkLite
