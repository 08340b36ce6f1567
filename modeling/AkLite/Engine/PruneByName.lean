/-
Pruning by the name of an app.

Both engines keep an app under the last component of its URI and prune by its name in the
target.  `RestorableAppEngine::prune` looks for an app with the name of a directory, and
`composeapp::AppEngine::prune` for one with the name and the URI that `composectl` lists.
If the two names of an app differ, the app is removed although it is in the shortlist, or
the walk meets a directory that is not there and ends.

`prune_spares_shortlist_iff` has the exact conditions.  They are on what is in the store
and on the shortlist before the call, and they hold if every app has the name of its URI
and there is one version of each name (`namedByUri_of_names`).
-/
import AkLite.Engine.Prune
import AkLite.Engine.Refetch

namespace AkLite

open Lib
open Client (App)

/-! ## The engine that runs composectl -/

namespace Composeapp

inductive Command where
  | ls
  | rm (uri : String)
  | prune
  | pruneContainers
  | pruneImages
  deriving DecidableEq, Repr

/-- The cache of the engine, and the commands it has issued, the last one first. -/
structure AppEngine where
  fetchedApps : List String
  commands : List Command
  deriving DecidableEq, Repr

/-- The answers to the commands. -/
structure PruneEnv where
  ls : Except String Json
  rm : String → Except String Unit
  /-- The blobs that were removed, or null for an output that is no JSON. -/
  prune : Except String Json
  pruneContainers : Except String Unit
  pruneImages : Except String Unit

abbrev Eff := EStateM String AppEngine

def exec {α : Type} (command : Command) (answer : Except String α) : Eff α := do
  modify fun e => { e with commands := command :: e.commands }
  orThrow answer

/-- An app in the listing.  An entry without a name or a URI is skipped. -/
def storeApp (json : Json) : Except String (Option App) := do
  if (← json.isMember "name") && (← json.isMember "uri") then
    return some (← (← json.index "name").asString, ← (← json.index "uri").asString)
  else return none

/-- Apps are compared by their names and their URIs. -/
def appsToPrune (shortlist : List App) (appList : Json) : Except String (List App) := do
  let storeApps := (← appList.values.mapM storeApp).filterMap id
  return storeApps.filter fun app => !shortlist.contains app

def removeApp (env : PruneEnv) (app : App) : Eff Unit := do
  modify fun e => { e with fetchedApps := e.fetchedApps.filter (· != app.2) }
  exec (.rm app.2) (env.rm app.2)

def removeUnused (env : PruneEnv) (shortlist : List App) : Eff Unit := do
  let appList ← exec .ls env.ls
  (← orThrow (appsToPrune shortlist appList)).forM (removeApp env)

def pruneUnused (env : PruneEnv) : Eff Unit := do
  if !(← exec .prune env.prune).isEmpty then
    exec .pruneContainers env.pruneContainers
    exec .pruneImages env.pruneImages

/-- The apps and the blobs are pruned one after the other, and a failure is only logged. -/
def prune (env : PruneEnv) (shortlist : List App) : Eff Unit := do
  tryCatch (removeUnused env shortlist) fun _ => pure ()
  tryCatch (pruneUnused env) fun _ => pure ()

end Composeapp

/-! ## What is to be shown -/

namespace Docker
namespace RestorableAppEngine

/-- The directory of every app of the shortlist stays, and no walk ends at a directory that
is not there, in whichever order directories are listed. -/
structure SparesShortlist (tk : Toolkit) (shortlist : List App) (s : Store) : Prop where
  keeps : ∀ env, ∀ app ∈ shortlist, ∀ uri, parseUri app.2 true = .ok uri →
    s.apps.isDirectory (appDir uri) = true →
    (pruned tk env shortlist s).apps.isDirectory (appDir uri) = true
  goesOn : ∀ env dir p, prune tk env shortlist (Pruning.start s) ≠ .error (.noDirectory dir) p

/-- The condition, on the directories of the apps and the shortlist.
* A directory without an app of its name has no version of the shortlist.
* If a directory has one, the directory of the app's URI is there, and it has one too.
* Of its versions, only that of the app is in the shortlist. -/
structure NamedByUri (shortlist : List App) (s : Store) : Prop where
  unnamed : ∀ name, s.apps.isDirectory [name] = true → appNamed shortlist name = none →
    ∀ app ∈ shortlist, ∀ uri, parseUri app.2 true = .ok uri → uri.app = name →
      s.apps.isDirectory (appDir uri) = false
  there : ∀ name app uri, s.apps.isDirectory [name] = true →
    appNamed shortlist name = some app → parseUri app.2 true = .ok uri →
    s.apps.isDirectory [uri.app] = true ∧ appNamed shortlist uri.app ≠ none
  one : ∀ name app uri, s.apps.isDirectory [name] = true →
    appNamed shortlist name = some app → parseUri app.2 true = .ok uri →
    ∀ app' ∈ shortlist, ∀ uri', parseUri app'.2 true = .ok uri' → uri'.app = uri.app →
      uri'.digest.hash ≠ uri.digest.hash → s.apps.isDirectory (appDir uri') = false

end RestorableAppEngine
end Docker

namespace Composeapp

/-- The listing has objects with a name, which is the last component of the URI. -/
def ListsByUri (appList : Json) : Prop :=
  ∀ entry ∈ appList.values, ∃ text uri, entry.index "name" = .ok (.str uri.app) ∧
    entry.index "uri" = .ok (.str text) ∧ Docker.parseUri text true = .ok uri

/-- No app of the shortlist is removed, whatever `composectl` answers after the listing. -/
def SparesShortlist (shortlist : List App) (appList : Json) : Prop :=
  ∀ env fetchedApps, env.ls = .ok appList →
    ∀ app ∈ shortlist, .rm app.2 ∉
      (after (prune env shortlist) { fetchedApps := fetchedApps, commands := [] }).commands

/-- A listed app that is in the shortlist is there under the name of its URI. -/
def NamedByUri (shortlist : List App) (appList : Json) : Prop :=
  ∀ entry ∈ appList.values, ∀ text uri, entry.index "uri" = .ok (.str text) →
    Docker.parseUri text true = .ok uri → (∃ app ∈ shortlist, app.2 = text) →
    (uri.app, text) ∈ shortlist

end Composeapp

/-! ## A walk that spares the shortlist -/

namespace Docker
namespace RestorableAppEngine

section Spares

variable {tk : Toolkit} {env : PruneEnv} {shortlist : List App} {s : Store} {p : Pruning}
  {uri : Uri}

/-- What stands while the walk goes on. -/
structure Standing (shortlist : List App) (s : Store) (p : Pruning) : Prop where
  apps : ∀ app ∈ shortlist, ∀ uri, parseUri app.2 true = .ok uri →
    s.apps.isDirectory (appDir uri) = true → p.store.apps.isDirectory (appDir uri) = true
  named : ∀ name, appNamed shortlist name ≠ none → s.apps.isDirectory [name] = true →
    p.store.apps.isDirectory [name] = true
  fewer : ∀ q, p.store.apps.isDirectory q = true → s.apps.isDirectory q = true

def isText : PruneExn → Prop
  | .noDirectory _ => False
  | .other _ => True

/-- Removing a tree leaves what stands, if no app of the shortlist is in it. -/
theorem Standing.removeDir (hp : Standing shortlist s p) {dir : Path}
    (happs : ∀ app ∈ shortlist, ∀ uri, parseUri app.2 true = .ok uri →
      s.apps.isDirectory (appDir uri) = true → ¬ dir <+: appDir uri)
    (hnamed : ∀ name, appNamed shortlist name ≠ none → ¬ dir <+: [name]) :
    wp (Pruning.removeDir dir) (fun _ => Standing shortlist s)
      (fun e t => Standing shortlist s t ∧ isText e) p := by
  refine ⟨fun app happ uri huri hdir => ?_, fun name hname hdir => ?_, fun q hq => ?_⟩
  · exact FileTree.isDirectory_removeAll.mpr
      ⟨happs app happ uri huri hdir, hp.apps app happ uri huri hdir⟩
  · exact FileTree.isDirectory_removeAll.mpr ⟨hnamed name hname, hp.named name hname hdir⟩
  · exact hp.fewer q (FileTree.isDirectory_removeAll.mp hq).2

/-- The directories that are not below `dir` stay. -/
def keepsOutside (dir : Path) : Frame Pruning where
  rel p t := (∀ q, ¬ dir <+: q → t.store.apps.node q = p.store.apps.node q) ∧
    ∀ q, t.store.apps.isDirectory q = true → p.store.apps.isDirectory q = true
  refl _ := ⟨fun _ _ => rfl, fun _ h => h⟩
  trans h h' := ⟨fun q hq => (h'.1 q hq).trans (h.1 q hq), fun q hq => h.2 q (h'.2 q hq)⟩

theorem pruneFrame_keepsOutside (dir : Path) :
    PruneFrame (keepsOutside dir) fun q => dir <+: q where
  blob _ _ := ⟨fun _ _ => rfl, fun _ h => h⟩
  tree p q hq := by
    refine ⟨fun r hr => ?_, fun r hr => (FileTree.isDirectory_removeAll.mp hr).2⟩
    exact FileTree.node_removeAll_of_not_prefix fun h => hr (hq.trans h)
  docker _ := ⟨fun _ _ => rfl, fun _ h => h⟩

theorem Standing.of_outside {dir : Path} {t : Pruning} (hp : Standing shortlist s p)
    (hlong : 2 < dir.length) (h : (keepsOutside dir).rel p t) : Standing shortlist s t := by
  have hsame : ∀ q : Path, q.length ≤ 2 →
      t.store.apps.isDirectory q = p.store.apps.isDirectory q := by
    intro q hq
    have hnot : ¬ dir <+: q := fun hpre => by
      have := hpre.length_le
      omega
    rw [FileTree.isDirectory, FileTree.isDirectory, h.1 q hnot]
  refine ⟨fun app happ uri huri hdir => ?_, fun name hname hdir => ?_, fun q hq => ?_⟩
  · rw [hsame _ (by simp [appDir])]
    exact hp.apps app happ uri huri hdir
  · rw [hsame _ (by simp)]
    exact hp.named name hname hdir
  · exact hp.fewer q (h.2 q hq)

theorem standing_keepVersion {version : String} (hp : Standing shortlist s p) :
    wp (keepVersion tk uri [uri.app, version]) (fun _ => Standing shortlist s)
      (fun e t => Standing shortlist s t ∧ isText e) p := by
  have hframe : Within (keepsOutside ([uri.app, version] ++ ["images"]))
      (keepVersion tk uri [uri.app, version]) := within_keepVersion (pruneFrame_keepsOutside _)
  refine wp_mono (wp_and (hframe p) (throws_keepVersion p)) (fun _ t ht => ?_) fun e t ht => ?_
  · exact hp.of_outside (by simp) ht.1
  · obtain ⟨hrel, what, rfl⟩ := ht
    exact ⟨hp.of_outside (by simp) hrel, trivial⟩

/-- In the directory of an app's URI, the other versions are not in the shortlist. -/
theorem standing_pruneVersion
    (hone : ∀ app' ∈ shortlist, ∀ uri', parseUri app'.2 true = .ok uri' → uri'.app = uri.app →
      uri'.digest.hash ≠ uri.digest.hash → s.apps.isDirectory (appDir uri') = false)
    (version : String) (hp : Standing shortlist s p) :
    wp (pruneVersion tk uri version) (fun _ => Standing shortlist s)
      (fun e t => Standing shortlist s t ∧ isText e) p := by
  unfold pruneVersion
  rw [wp_bind, wp_get, wp_ite]
  split
  swap
  · exact hp
  rw [wp_ite]
  split
  · next hversion =>
    refine hp.removeDir (fun app' happ' uri' huri' hdir hpre => ?_) fun name _ hpre => ?_
    · -- a prefix of the same length is the directory itself
      have heq : [uri.app, version] = appDir uri' := hpre.eq_of_length rfl
      injection heq with happ hrest
      injection hrest with hhash _
      have hnot := hone app' happ' uri' huri' happ.symm (hhash ▸ hversion)
      cases hnot.symm.trans hdir
    · have := hpre.length_le
      simp at this
  · exact standing_keepVersion hp

theorem standing_pruneApp (h : NamedByUri shortlist s) (name : String)
    (hp : Standing shortlist s p) :
    wp (pruneApp tk env shortlist name) (fun _ => Standing shortlist s)
      (fun e t => Standing shortlist s t ∧ isText e) p := by
  unfold pruneApp
  rw [wp_bind, wp_get, wp_ite]
  split
  swap
  · exact hp
  next hdir =>
  have hdir := hp.fewer _ hdir
  cases hnamed : appNamed shortlist name with
  | none =>
    refine hp.removeDir (fun app happ uri huri hstored hpre => ?_) fun other hother hpre => ?_
    · have hname : uri.app = name := by
        obtain ⟨rest, hrest⟩ := hpre
        injection hrest with hname _
        exact hname.symm
      cases (h.unnamed name hdir hnamed app happ uri huri hname).symm.trans hstored
    · obtain ⟨rest, hrest⟩ := hpre
      injection hrest with hname _
      exact hother (hname ▸ hnamed)
  | some app =>
    dsimp only
    rw [wp_bind]
    unfold Pruning.lift
    rw [wp_orThrow]
    cases huri : parseUri app.2 true with
    | error what => exact ⟨hp, trivial⟩
    | ok uri =>
      obtain ⟨hthere, hother⟩ := h.there name app uri hdir hnamed huri
      change wp (pruneVersions tk env uri) _ _ p
      unfold pruneVersions
      rw [wp_bind, wp_get]
      dsimp only
      rw [if_pos (hp.named _ hother hthere)]
      refine wp_forM (fun version _ t ht => ?_) hp
      exact standing_pruneVersion (h.one name app uri hdir hnamed huri) version ht

theorem standing_prune (h : NamedByUri shortlist s) :
    wp (prune tk env shortlist) (fun _ => Standing shortlist s)
      (fun e t => Standing shortlist s t ∧ isText e) (Pruning.start s) := by
  have hstart : Standing shortlist s (Pruning.start s) :=
    ⟨fun _ _ _ _ hdir => hdir, fun _ _ hdir => hdir, fun _ hq => hq⟩
  refine wp_prune (wp_mono (wp_forM (fun name _ t ht => standing_pruneApp h name ht) hstart)
    (fun _ p hp t ht => ?_) fun _ _ he => he)
  -- blobs are no directories of apps
  have happs : t.store.apps = p.store.apps := by
    rw [ht]
    rfl
  refine ⟨?_, ?_, ?_⟩
  · rw [happs]
    exact hp.apps
  · rw [happs]
    exact hp.named
  · rw [happs]
    exact hp.fewer

theorem sparesShortlist_of_namedByUri (h : NamedByUri shortlist s) :
    SparesShortlist tk shortlist s where
  keeps env app happ uri huri hdir := by
    have hstanding : Standing shortlist s (after (prune tk env shortlist) (Pruning.start s)) :=
      after_of_wp (wp_mono (standing_prune h) (fun _ _ ht => ht) fun _ _ ht => ht.1)
    exact hstanding.apps app happ uri huri hdir
  goesOn env dir p hrun := by
    have hwp : wp (prune tk env shortlist) _ _ (Pruning.start s) := standing_prune h
    unfold wp at hwp
    rw [hrun] at hwp
    exact hwp.2

end Spares

/-! ## A walk that does not -/

section Fails

variable {tk : Toolkit} {shortlist : List App} {s : Store} {p : Pruning} {uri : Uri}

/-- Directories only disappear. -/
def shrinks : Frame Pruning where
  rel p t := ∀ q, t.store.apps.isDirectory q = true → p.store.apps.isDirectory q = true
  refl _ _ h := h
  trans h h' q hq := h q (h' q hq)

theorem pruneFrame_shrinks : PruneFrame shrinks fun _ => True where
  blob _ _ _ h := h
  tree _ _ _ _ h := (FileTree.isDirectory_removeAll.mp h).2
  docker _ _ h := h

theorem shrinks_false {t : Pruning} {q : Path} (h : shrinks.rel p t)
    (hp : p.store.apps.isDirectory q = false) : t.store.apps.isDirectory q = false := by
  rw [← Bool.not_eq_true] at hp ⊢
  exact fun ht => hp (h q ht)

/-- What the first directory loses is lost, however the walk goes on. -/
theorem pruned_of_first {env : PruneEnv} {name : String} {rest : List String} {q : Path}
    (hlist : s.apps.list env.order [] = name :: rest)
    (hfirst : wp (pruneApp tk env shortlist name)
      (fun _ t => t.store.apps.isDirectory q = false)
      (fun _ t => t.store.apps.isDirectory q = false) (Pruning.start s)) :
    (pruned tk env shortlist s).apps.isDirectory q = false := by
  refine after_of_wp (P := fun t : Pruning => t.store.apps.isDirectory q = false) (wp_prune ?_)
  rw [hlist]
  change wp (pruneApp tk env shortlist name >>= fun _ => rest.forM (pruneApp tk env shortlist))
    _ _ _
  rw [wp_bind]
  refine wp_mono hfirst (fun _ t ht => ?_) fun _ _ ht => ht
  have hrest : Within shrinks (rest.forM (pruneApp tk env shortlist)) :=
    Within.forM fun other _ => within_pruneApp pruneFrame_shrinks shortlist other
  refine wp_mono (hrest t) (fun _ u hu v hv => ?_) fun _ u hu => shrinks_false hu ht
  rw [hv]
  exact shrinks_false hu ht

/-- A directory without an app of its name goes. -/
theorem pruneApp_unnamed {env : PruneEnv} {name : String}
    (hdir : p.store.apps.isDirectory [name] = true) (hnone : appNamed shortlist name = none) :
    pruneApp tk env shortlist name p = .ok () { p with
      store := { p.store with apps := p.store.apps.removeAll [name] }
      pruneDockerStore := true } := by
  unfold pruneApp
  rw [get_bind, if_pos hdir, hnone]
  rfl

/-- The directory of an app of its name is walked by the app's URI. -/
theorem pruneApp_named {env : PruneEnv} {name : String} {app : App}
    (hdir : p.store.apps.isDirectory [name] = true) (hsome : appNamed shortlist name = some app)
    (huri : parseUri app.2 true = .ok uri) :
    pruneApp tk env shortlist name p = pruneVersions tk env uri p := by
  unfold pruneApp
  rw [get_bind, if_pos hdir, hsome]
  dsimp only
  rw [huri]
  rfl

/-- The walk ends if the directory of the URI is not there. -/
theorem pruneApp_missing {env : PruneEnv} {name : String} {app : App}
    (hdir : p.store.apps.isDirectory [name] = true) (hsome : appNamed shortlist name = some app)
    (huri : parseUri app.2 true = .ok uri) (h : p.store.apps.isDirectory [uri.app] = false) :
    pruneApp tk env shortlist name p = .error (.noDirectory [uri.app]) p := by
  rw [pruneApp_named hdir hsome huri]
  unfold pruneVersions
  rw [get_bind, if_neg (by simp [h])]
  rfl

/-- Of the versions, another one than that of the URI goes. -/
theorem pruneVersion_other {version : String}
    (hdir : p.store.apps.isDirectory [uri.app, version] = true)
    (hversion : version ≠ uri.digest.hash) :
    pruneVersion tk uri version p = .ok () { p with
      store := { p.store with apps := p.store.apps.removeAll [uri.app, version] }
      pruneDockerStore := true } := by
  unfold pruneVersion
  rw [get_bind]
  dsimp only
  rw [if_pos hdir, if_pos hversion]
  rfl

/-- The walk begins with these directories and versions. -/
def beginsWith (names : List String) (app : String) (versions : List String) : PruneEnv where
  order := .front fun q => if q = [] then names else if q = [app] then versions else []
  blobDir := true

theorem list_beginsWith {t : FileTree} {names versions : List String} {app : String}
    (hnodup : names.Nodup) (hall : ∀ name ∈ names, t.isDirectory [name] = true) :
    ∃ rest, t.list (beginsWith names app versions).order [] = names ++ rest :=
  FileTree.list_front t _ hnodup fun name hname => FileTree.has_of_isDirectory (hall name hname)

theorem list_beginsWith_versions {t : FileTree} {names : List String} {app version : String}
    (h : t.isDirectory [app, version] = true) :
    ∃ rest, t.list (beginsWith names app [version]).order [app] = [version] ++ rest := by
  have hif : (if [app] = [] then names else if [app] = [app] then [version] else []) =
      [version] := by simp
  have hlist := FileTree.list_front t
    (fun q => if q = [] then names else if q = [app] then [version] else []) (p := [app])
  rw [hif] at hlist
  refine hlist (List.nodup_singleton _) fun x hx => ?_
  rw [List.mem_singleton.mp hx]
  exact FileTree.has_of_isDirectory h

theorem unnamed_of_spares (h : SparesShortlist tk shortlist s) {name : String}
    (hdir : s.apps.isDirectory [name] = true) (hnone : appNamed shortlist name = none) {app : App}
    (happ : app ∈ shortlist) (huri : parseUri app.2 true = .ok uri) (hname : uri.app = name) :
    s.apps.isDirectory (appDir uri) = false := by
  by_contra hstored
  rw [Bool.not_eq_false] at hstored
  obtain ⟨rest, hlist⟩ : ∃ rest, s.apps.list (beginsWith [name] "" []).order [] = [name] ++ rest :=
    list_beginsWith (List.nodup_singleton _) (by simpa using hdir)
  have hgone : (pruned tk (beginsWith [name] "" []) shortlist s).apps.isDirectory (appDir uri) =
      false := by
    refine pruned_of_first hlist (wp_of_ok (pruneApp_unnamed hdir hnone) ?_)
    rw [← Bool.not_eq_true, FileTree.isDirectory_removeAll]
    exact fun hboth => hboth.1 ⟨[uri.digest.hash], by rw [← hname]; rfl⟩
  cases hgone.symm.trans (h.keeps _ app happ uri huri hstored)

/-- No order makes the walk end at a missing directory. -/
theorem not_spares_of_stops (env : PruneEnv)
    (h : wp (prune tk env shortlist) (fun _ _ => False) (fun e _ => ∃ dir, e = .noDirectory dir)
      (Pruning.start s)) : ¬ SparesShortlist tk shortlist s := by
  intro hspares
  unfold wp at h
  cases hrun : prune tk env shortlist (Pruning.start s) with
  | ok a t =>
    rw [hrun] at h
    exact h
  | error e t =>
    rw [hrun] at h
    obtain ⟨dir, rfl⟩ := h
    exact hspares.goesOn env dir t hrun

theorem there_of_spares (h : SparesShortlist tk shortlist s) {name : String} {app : App}
    (hdir : s.apps.isDirectory [name] = true) (hsome : appNamed shortlist name = some app)
    (huri : parseUri app.2 true = .ok uri) :
    s.apps.isDirectory [uri.app] = true ∧ appNamed shortlist uri.app ≠ none := by
  have hthere : s.apps.isDirectory [uri.app] = true := by
    by_contra hmissing
    obtain ⟨rest, hlist⟩ : ∃ rest, s.apps.list (beginsWith [name] "" []).order [] =
      [name] ++ rest := list_beginsWith (List.nodup_singleton _) (by simpa using hdir)
    refine not_spares_of_stops (beginsWith [name] "" []) (wp_prune ?_) h
    rw [hlist]
    change wp (pruneApp tk _ shortlist name >>= fun _ => rest.forM _) _ _ _
    rw [wp_bind]
    rw [Bool.not_eq_true] at hmissing
    exact wp_of_error (pruneApp_missing hdir hsome huri hmissing) ⟨_, rfl⟩
  refine ⟨hthere, fun hnone => ?_⟩
  -- the directory of the URI goes first, and then it is missed
  have hne : uri.app ≠ name := fun heq => by
    rw [heq, hsome] at hnone
    cases hnone
  obtain ⟨rest, hlist⟩ : ∃ rest, s.apps.list (beginsWith [uri.app, name] "" []).order [] =
      [uri.app, name] ++ rest := by
    refine list_beginsWith (by simpa using hne) fun other hother => ?_
    rcases List.mem_pair.mp hother with rfl | rfl
    · exact hthere
    · exact hdir
  refine not_spares_of_stops (beginsWith [uri.app, name] "" []) (wp_prune ?_) h
  rw [hlist]
  change wp (pruneApp tk _ shortlist uri.app >>= fun _ => pruneApp tk _ shortlist name >>= fun _ =>
    rest.forM _) _ _ _
  rw [wp_bind]
  refine wp_of_ok (pruneApp_unnamed hthere hnone) ?_
  have hstill : (s.apps.removeAll [uri.app]).isDirectory [name] = true :=
    FileTree.isDirectory_removeAll.mpr ⟨by simpa using hne, hdir⟩
  have hgone : (s.apps.removeAll [uri.app]).isDirectory [uri.app] = false := by
    rw [← Bool.not_eq_true, FileTree.isDirectory_removeAll]
    exact fun hboth => hboth.1 (List.prefix_refl _)
  rw [wp_bind]
  exact wp_of_error (pruneApp_missing hstill hsome huri hgone) ⟨_, rfl⟩

theorem one_of_spares (h : SparesShortlist tk shortlist s) {name : String} {app app' : App}
    {uri' : Uri} (hdir : s.apps.isDirectory [name] = true)
    (hsome : appNamed shortlist name = some app) (huri : parseUri app.2 true = .ok uri)
    (happ' : app' ∈ shortlist) (huri' : parseUri app'.2 true = .ok uri')
    (hsame : uri'.app = uri.app) (hhash : uri'.digest.hash ≠ uri.digest.hash) :
    s.apps.isDirectory (appDir uri') = false := by
  by_contra hstored
  rw [Bool.not_eq_false] at hstored
  have hthere := (there_of_spares h hdir hsome huri).1
  have hversion : s.apps.isDirectory [uri.app, uri'.digest.hash] = true := hsame ▸ hstored
  let env := beginsWith [name] uri.app [uri'.digest.hash]
  obtain ⟨rest, hlist⟩ : ∃ rest, s.apps.list env.order [] = [name] ++ rest :=
    list_beginsWith (List.nodup_singleton _) (by simpa using hdir)
  obtain ⟨versions, hversions⟩ : ∃ versions, s.apps.list env.order [uri.app] =
    [uri'.digest.hash] ++ versions := list_beginsWith_versions hversion
  have hgone : (pruned tk env shortlist s).apps.isDirectory (appDir uri') = false := by
    refine pruned_of_first hlist ?_
    have hwalk : wp (pruneVersions tk env uri)
        (fun _ t => t.store.apps.isDirectory (appDir uri') = false)
        (fun _ t => t.store.apps.isDirectory (appDir uri') = false) (Pruning.start s) := by
      unfold pruneVersions
      rw [wp_bind, wp_get]
      change wp (if s.apps.isDirectory [uri.app] = true then
        (s.apps.list env.order [uri.app]).forM (pruneVersion tk uri) else _) _ _ _
      rw [if_pos hthere, hversions]
      change wp (pruneVersion tk uri uri'.digest.hash >>= fun _ => versions.forM _) _ _ _
      rw [wp_bind]
      refine wp_of_ok (pruneVersion_other hversion hhash) ?_
      have hrest : Within shrinks (versions.forM (pruneVersion tk uri)) :=
        Within.forM fun version _ => within_pruneVersion pruneFrame_shrinks version
      have hfirst : (s.apps.removeAll [uri.app, uri'.digest.hash]).isDirectory (appDir uri') =
          false := by
        rw [← Bool.not_eq_true, FileTree.isDirectory_removeAll, ← hsame]
        exact fun hboth => hboth.1 (List.prefix_refl _)
      exact wp_mono (hrest _) (fun _ t ht => shrinks_false ht hfirst) fun _ t ht =>
        shrinks_false ht hfirst
    unfold wp at hwalk ⊢
    rwa [pruneApp_named hdir hsome huri]
  cases hgone.symm.trans (h.keeps _ app' happ' uri' huri' hstored)

theorem sparesShortlist_iff : SparesShortlist tk shortlist s ↔ NamedByUri shortlist s :=
  ⟨fun h => ⟨fun _ hdir hnone _ happ _ huri hname => unnamed_of_spares h hdir hnone happ huri hname,
    fun _ _ _ hdir hsome huri => there_of_spares h hdir hsome huri,
    fun _ _ _ hdir hsome huri _ happ' _ huri' => one_of_spares h hdir hsome huri happ' huri'⟩,
    sparesShortlist_of_namedByUri⟩

end Fails

/-- The condition is met if the apps have the names of their URIs, one URI for each name. -/
theorem namedByUri_of_names {shortlist : List App} {s : Store}
    (hnames : ∀ app ∈ shortlist, ∀ uri, parseUri app.2 true = .ok uri → app.1 = uri.app)
    (hone : ∀ app ∈ shortlist, ∀ app' ∈ shortlist, app.1 = app'.1 → app.2 = app'.2) :
    NamedByUri shortlist s where
  unnamed name _ hnone app happ uri huri hname := by
    rw [← hname, ← hnames app happ uri huri] at hnone
    exact absurd hnone (appNamed_ne_none happ)
  there name app uri hdir hsome huri := by
    obtain ⟨happ, hname⟩ := appNamed_some hsome
    rw [← hnames app happ uri huri, hname, hsome]
    exact ⟨hdir, Option.some_ne_none app⟩
  one name app uri _ hsome huri app' happ' uri' huri' hsame hhash := by
    obtain ⟨happ, _⟩ := appNamed_some hsome
    have hname : app'.1 = app.1 := by
      rw [hnames app' happ' uri' huri', hnames app happ uri huri, hsame]
    rw [hone app' happ' app happ hname, huri] at huri'
    exact absurd (congrArg (fun u : Uri => u.digest.hash) (Except.ok.inj huri').symm) hhash

end RestorableAppEngine
end Docker

/-! ## What composectl is told to remove -/

namespace Composeapp

variable {env : PruneEnv} {shortlist : List App} {appList : Json}

theorem storeApp_of_index {entry : Json} {name text : String}
    (hname : entry.index "name" = .ok (.str name)) (huri : entry.index "uri" = .ok (.str text)) :
    storeApp entry = .ok (some (name, text)) := by
  have hmember := Json.isMember_of_find (Json.find_of_index hname (by simp))
  have hmember' := Json.isMember_of_find (Json.find_of_index huri (by simp))
  rw [storeApp, hmember, hmember', hname, huri]
  rfl

/-- The apps to remove are the listed ones that are not in the shortlist. -/
theorem mem_appsToPrune (hlist : ListsByUri appList) :
    ∃ apps, appsToPrune shortlist appList = .ok apps ∧
      ∀ app, app ∈ apps ↔ app ∉ shortlist ∧
        ∃ entry ∈ appList.values, storeApp entry = .ok (some app) := by
  have hreads : ∀ entry ∈ appList.values, Returns (storeApp entry) := by
    intro entry hentry
    obtain ⟨text, uri, hname, huri, _⟩ := hlist entry hentry
    exact ⟨_, storeApp_of_index hname huri⟩
  obtain ⟨read, hread⟩ := returns_mapM_iff.mpr hreads
  refine ⟨_, bind_eq_ok.mpr ⟨read, hread, rfl⟩, fun app => ?_⟩
  rw [List.mem_filter, List.mem_filterMap]
  simp only [id_eq, exists_eq_right, Bool.not_eq_true', ← Bool.not_eq_true, List.contains_iff_mem]
  rw [and_comm]
  refine and_congr_right fun _ => ⟨fun h => ?_, fun ⟨entry, hentry, h⟩ => ?_⟩
  · obtain ⟨entry, hentry, h⟩ := exists_of_mem_mapM hread h
    exact ⟨entry, hentry, h⟩
  · obtain ⟨found, hfound, h'⟩ := exists_mem_mapM hread hentry
    cases h.symm.trans h'
    exact hfound

/-- The commands that are added are of `P`. -/
def issues (P : Command → Prop) : Frame AppEngine := .adds AppEngine.commands P

theorem within_exec {P : Command → Prop} {α : Type} {command : Command} {answer : Except String α}
    (h : P command) : Within (issues P) (exec command answer) :=
  Within.bind (Within.modify fun _ => ⟨[command], rfl, by simpa using h⟩) fun _ => Within.orThrow _

theorem within_removeApp {P : Command → Prop} {app : App} (h : P (.rm app.2)) :
    Within (issues P) (removeApp env app) :=
  Within.bind (Within.modify fun _ => ⟨[], rfl, List.forall_mem_nil _⟩) fun _ => within_exec h

theorem within_pruneUnused {P : Command → Prop} (h : ∀ command, (∀ uri, command ≠ .rm uri) →
    P command) : Within (issues P) (pruneUnused env) := by
  unfold pruneUnused
  refine (within_exec (h _ (by simp))).bind fun blobs => Within.ite ?_ (Within.pure _)
  exact (within_exec (h _ (by simp))).bind fun _ => within_exec (h _ (by simp))

theorem removeUnused_eq {apps : List App} (hls : env.ls = .ok appList)
    (happs : appsToPrune shortlist appList = .ok apps) (e : AppEngine) :
    removeUnused env shortlist e =
      apps.forM (removeApp env) { e with commands := .ls :: e.commands } := by
  unfold removeUnused exec
  rw [hls]
  change (orThrow (appsToPrune shortlist appList) >>= fun apps => apps.forM (removeApp env))
    { e with commands := .ls :: e.commands } = _
  rw [happs]
  rfl

/-- What is removed is not in the shortlist. -/
theorem spares_of_named (hlist : ListsByUri appList) (h : NamedByUri shortlist appList) :
    SparesShortlist shortlist appList := by
  intro env fetchedApps hls app happ hmem
  let P : Command → Prop := fun command => ∀ app ∈ shortlist, command ≠ .rm app.2
  have hother : ∀ command, (∀ uri, command ≠ .rm uri) → P command := fun _ hc app _ => hc app.2
  obtain ⟨apps, happs, hprune⟩ : ∃ apps, appsToPrune shortlist appList = .ok apps ∧
    ∀ app, app ∈ apps ↔ app ∉ shortlist ∧
      ∃ entry ∈ appList.values, storeApp entry = .ok (some app) := mem_appsToPrune hlist
  have hremoved : ∀ app ∈ apps, P (.rm app.2) := by
    intro app happ kept hkept heq
    obtain ⟨hnot, entry, hentry, hstore⟩ := (hprune app).mp happ
    obtain ⟨text, uri, hname, huri, hparse⟩ := hlist entry hentry
    cases hstore.symm.trans (storeApp_of_index hname huri)
    injection heq with heq
    exact hnot (h entry hentry text uri huri hparse ⟨kept, hkept, heq.symm⟩)
  have hwithin : Within (issues P) (prune env shortlist) := by
    refine (Within.tryCatch (fun e => ?_) fun _ => Within.pure _).bind fun _ =>
      Within.tryCatch (within_pruneUnused hother) fun _ => Within.pure _
    have hls' : (issues P).rel e { e with commands := .ls :: e.commands } :=
      ⟨[.ls], rfl, by simpa using hother .ls (by simp)⟩
    have hloop : Within (issues P) (apps.forM (removeApp env)) :=
      Within.forM fun app happ => within_removeApp (hremoved app happ)
    unfold wp
    rw [removeUnused_eq hls happs e]
    exact wp_mono (hloop _) (fun _ _ ht => (issues P).trans hls' ht) fun _ _ ht =>
      (issues P).trans hls' ht
  have hadded : (issues P).rel _ _ := after_of_wp
    (P := (issues P).rel { fetchedApps := fetchedApps, commands := [] }) (hwithin _)
  obtain ⟨added, hcommands, hall⟩ := hadded
  rw [hcommands, List.append_nil] at hmem
  exact hall _ hmem app happ rfl

/-- The removals succeed. -/
def removesAll (appList : Json) : PruneEnv where
  ls := .ok appList
  rm _ := .ok ()
  prune := .ok .null
  pruneContainers := .ok ()
  pruneImages := .ok ()

/-- A listed app that is in the shortlist under another name only is removed. -/
theorem named_of_spares (hlist : ListsByUri appList) (h : SparesShortlist shortlist appList) :
    NamedByUri shortlist appList := by
  rintro entry hentry text uri huri hparse ⟨app, happ, rfl⟩
  by_contra hnot
  obtain ⟨apps, happs, hprune⟩ : ∃ apps, appsToPrune shortlist appList = .ok apps ∧
    ∀ app, app ∈ apps ↔ app ∉ shortlist ∧
      ∃ entry ∈ appList.values, storeApp entry = .ok (some app) := mem_appsToPrune hlist
  have hmem : (uri.app, app.2) ∈ apps := by
    obtain ⟨text, uri', hname, huri', hparse'⟩ := hlist entry hentry
    cases huri.symm.trans huri'
    cases hparse.symm.trans hparse'
    exact (hprune _).mpr ⟨hnot, entry, hentry, storeApp_of_index hname huri⟩
  -- each removal is issued, and no later command takes it back
  have hstep : ∀ app ∈ apps, ∀ e : AppEngine, True → wp (removeApp (removesAll appList) app)
      (fun _ t => True ∧ .rm app.2 ∈ t.commands ∧
        ∀ b : App, .rm b.2 ∈ e.commands → .rm b.2 ∈ t.commands) (fun _ _ => False) e :=
    fun app _ e _ => ⟨trivial, List.mem_cons_self, fun _ hb => List.mem_cons_of_mem _ hb⟩
  have hloop := fun e => wp_forM_each (Q := fun (app : App) (e : AppEngine) =>
    .rm app.2 ∈ e.commands) hstep (s := e) trivial
  refine h (removesAll appList) [] rfl app happ (after_of_wp (P := fun e : AppEngine =>
    .rm app.2 ∈ e.commands) ?_)
  unfold prune
  rw [wp_bind, wp_tryCatch]
  unfold wp
  rw [removeUnused_eq rfl happs]
  refine wp_mono (hloop _) (fun _ e he => ?_) fun _ _ he => he.elim
  exact List.mem_cons_of_mem _ (he.2.1 (uri.app, app.2) hmem)

theorem sparesShortlist_iff (hlist : ListsByUri appList) :
    SparesShortlist shortlist appList ↔ NamedByUri shortlist appList :=
  ⟨named_of_spares hlist, spares_of_named hlist⟩

end Composeapp

namespace Docker
namespace RestorableAppEngine

/-- The two engines spare the apps of the shortlist exactly under these conditions, where
`composectl` lists an app under the last component of its URI. -/
theorem prune_spares_shortlist_iff (tk : Toolkit) (shortlist : List App) (s : Store)
    (appList : Json) (hlist : Composeapp.ListsByUri appList) :
    (SparesShortlist tk shortlist s ↔ NamedByUri shortlist s) ∧
      (Composeapp.SparesShortlist shortlist appList ↔ Composeapp.NamedByUri shortlist appList) :=
  ⟨sparesShortlist_iff, Composeapp.sparesShortlist_iff hlist⟩

/-! ## An app with two names -/

/-- The store with a version of the app `portal`. -/
def portalStore : Store where
  apps := { entries := [(["portal"], .dir), (["portal", letterHash "m"], .dir)] }
  blobs := []

/-- What composectl lists. -/
def portalList : Json :=
  .arr [.obj [("name", .str "portal"), ("uri", .str (letterUri "portal" "m"))]]

theorem parseUri_portal : ∃ uri, parseUri (letterUri "portal" "m") true = .ok uri ∧
    uri.app = "portal" ∧ uri.digest.hash = letterHash "m" := by
  obtain ⟨uri, huri, htest⟩ := exists_ok_of_any (x := parseUri (letterUri "portal" "m") true)
    (p := fun uri => decide (uri.app = "portal" ∧ uri.digest.hash = letterHash "m"))
    (by decide +kernel)
  exact ⟨uri, huri, of_decide_eq_true htest⟩

theorem listsByUri_portalList : Composeapp.ListsByUri portalList := by
  intro entry hentry
  obtain ⟨uri, huri, happ, _⟩ := parseUri_portal
  rw [List.mem_singleton.mp hentry]
  exact ⟨letterUri "portal" "m", uri, by rw [happ]; rfl, rfl, huri⟩

/-- Under the name of its URI the app is spared. -/
theorem prune_spares_portal :
    SparesShortlist letterToolkit [("portal", letterUri "portal" "m")] portalStore ∧
      Composeapp.SparesShortlist [("portal", letterUri "portal" "m")] portalList := by
  obtain ⟨uri, huri, happ, _⟩ := parseUri_portal
  have hboth := prune_spares_shortlist_iff letterToolkit [("portal", letterUri "portal" "m")]
    portalStore portalList listsByUri_portalList
  refine ⟨hboth.1.mpr (namedByUri_of_names (fun app hmem uri' huri' => ?_)
    fun app hmem app' hmem' _ => ?_), hboth.2.mpr fun entry hentry text uri' _ huri' happ' => ?_⟩
  · cases List.mem_singleton.mp hmem
    cases huri.symm.trans huri'
    exact happ.symm
  · rw [List.mem_singleton.mp hmem, List.mem_singleton.mp hmem']
  · obtain ⟨app, hmem, rfl⟩ := happ'
    cases List.mem_singleton.mp hmem
    cases huri.symm.trans huri'
    rw [happ]
    exact List.mem_singleton_self _

/-- The store with a directory of the app's name in the target only. -/
def webStore : Store where
  apps := { entries := [(["web"], .dir)] }
  blobs := []

/-- Under another name it is removed by both, or the walk ends. -/
theorem prune_removes_renamed_app :
    portalStore.apps.isDirectory ["portal", letterHash "m"] = true ∧
      (pruned letterToolkit (beginsWith [] "" []) [("web", letterUri "portal" "m")]
        portalStore).apps.isDirectory ["portal", letterHash "m"] = false ∧
      (∃ p, prune letterToolkit (beginsWith [] "" []) [("web", letterUri "portal" "m")]
        (Pruning.start webStore) = .error (.noDirectory ["portal"]) p) ∧
      .rm (letterUri "portal" "m") ∈ (after (Composeapp.prune (Composeapp.removesAll portalList)
        [("web", letterUri "portal" "m")]) { fetchedApps := [], commands := [] }).commands := by
  refine ⟨by decide +kernel, by decide +kernel, ⟨_, rfl⟩, by decide +kernel⟩

end RestorableAppEngine
end Docker
end AkLite
