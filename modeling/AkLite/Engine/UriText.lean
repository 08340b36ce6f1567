/-
The texts of URIs.

A text that is accepted has the registry before its first slash, the name up to the first
`@`, and the digest after it.  A URI is written back in the same form, with the digest in
lower case, and read again.

The directory of an app is made of two parts of its URI.  They are not checked to be the
names of directories: the last part of the name may be empty or one of the two dots, and
the digest is checked for its length only.
-/
import AkLite.Engine.Pulled
import AkLite.Lib.Text

namespace AkLite
namespace Docker

open Lib

/-! ## Names -/

theorem splitLastSlash_of_not_mem {name : List Char} (h : '/' ∉ name) :
    splitLastSlash name = (none, name) := by
  rw [splitLastSlash, if_neg (by simpa using h)]

theorem splitLastSlash_append {factory app : List Char} (h : '/' ∉ app) :
    splitLastSlash (factory ++ '/' :: app) = (some factory, app) := by
  have hreverse : (factory ++ '/' :: app).reverse = app.reverse ++ '/' :: factory.reverse := by
    rw [List.reverse_append, List.reverse_cons, List.append_assoc]
    rfl
  have hlast : ((factory ++ '/' :: app).reverse.takeWhile (· ≠ '/')).reverse = app := by
    rw [hreverse, takeWhile_ne_append (fun hmem => h (List.mem_reverse.mp hmem)),
      List.reverse_reverse]
  have hlength : (factory ++ '/' :: app).length - app.length - 1 = factory.length := by
    rw [List.length_append, List.length_cons]
    omega
  rw [splitLastSlash, hlast, if_pos (by simp), hlength, List.take_left]

/-- A name is an app, or a factory, a slash and an app. -/
theorem splitLastSlash_cases (name : List Char) :
    ('/' ∉ name ∧ splitLastSlash name = (none, name)) ∨
      ∃ factory app, name = factory ++ '/' :: app ∧ '/' ∉ app ∧
        splitLastSlash name = (some factory, app) := by
  by_cases h : '/' ∈ name
  · obtain ⟨before, after, hsplit, hnot⟩ := List.eq_append_cons_of_mem (List.mem_reverse.mpr h)
    have hname : name = after.reverse ++ '/' :: before.reverse := by
      rw [← List.reverse_reverse name, hsplit, List.reverse_append, List.reverse_cons,
        List.append_assoc]
      rfl
    have happ : '/' ∉ before.reverse := fun hmem => hnot (List.mem_reverse.mp hmem)
    refine .inr ⟨after.reverse, before.reverse, hname, happ, ?_⟩
    rw [hname]
    exact splitLastSlash_append happ
  · exact .inl ⟨h, splitLastSlash_of_not_mem h⟩

/-! ## What is accepted -/

/-- The URI with this name. -/
def uriOf (registry name : List Char) (digest : HashedDigest) : Uri where
  digest := digest
  app := String.ofList (splitLastSlash name).2
  factory := String.ofList ((splitLastSlash name).1.getD [])
  repo := String.ofList name
  registryHostname := String.ofList registry

/-- The parts of an accepted text. -/
structure Parts (text : List Char) (factoryApp : Bool) (registry name rest : List Char)
    (digest : HashedDigest) : Prop where
  text : text = registry ++ '/' :: (name ++ '@' :: rest)
  plain_registry : '/' ∉ registry ∧ '@' ∉ registry
  plain_name : name ≠ [] ∧ '@' ∉ name
  factory : factoryApp = true → (splitLastSlash name).1.getD [] ≠ [] ∧
    '/' ∉ (splitLastSlash name).1.getD []
  digest : HashedDigest.parse (String.ofList rest) = .ok digest

/-- The parser, for a text that has both separators. -/
theorem parseUri_of_split {text : String} {pinned rest registry path : List Char}
    (hpinned : text.toList = pinned ++ '@' :: rest) (hat : '@' ∉ pinned)
    (hregistry : text.toList = registry ++ '/' :: path) (hslash : '/' ∉ registry)
    (factoryApp : Bool) {uri : Uri} :
    parseUri text factoryApp = .ok uri ↔
      registry.length + 1 < pinned.length ∧
        (factoryApp = true →
          (splitLastSlash (pinned.drop (registry.length + 1))).1.getD [] ≠ [] ∧
          '/' ∉ (splitLastSlash (pinned.drop (registry.length + 1))).1.getD []) ∧
        ∃ digest, HashedDigest.parse (String.ofList rest) = .ok digest ∧
          uri = uriOf registry (pinned.drop (registry.length + 1)) digest := by
  have htake : text.toList.takeWhile (· ≠ '@') = pinned := by
    rw [hpinned, takeWhile_ne_append hat]
  have htake' : text.toList.takeWhile (· ≠ '/') = registry := by
    rw [hregistry, takeWhile_ne_append hslash]
  have hdrop : text.toList.drop (pinned.length + 1) = rest := by
    rw [hpinned, drop_length_succ_append]
  have hhasAt : text.toList.contains '@' = true := by
    rw [hpinned]
    simp
  have hhasSlash : text.toList.contains '/' = true := by
    rw [hregistry]
    simp
  unfold parseUri
  simp only [hhasAt, hhasSlash, htake, htake', hdrop, Bool.not_true, Bool.false_eq_true, if_false]
  refine ite_error_eq_ok.trans (and_congr Nat.not_le
    (ite_error_eq_ok.trans (and_congr ?_ (bind_eq_ok.trans ?_))))
  · cases factoryApp with
    | false => simp
    | true => simp
  · constructor
    · rintro ⟨digest, hdigest, h⟩
      cases h
      exact ⟨digest, hdigest, rfl⟩
    · rintro ⟨digest, hdigest, rfl⟩
      exact ⟨digest, hdigest, rfl⟩

theorem parseUri_eq_ok {text : String} {factoryApp : Bool} {uri : Uri} :
    parseUri text factoryApp = .ok uri ↔
      ∃ registry name rest digest, Parts text.toList factoryApp registry name rest digest ∧
        uri = uriOf registry name digest := by
  constructor
  · intro h
    have hat : '@' ∈ text.toList := by
      by_contra hnot
      rw [parseUri, if_pos (by simpa using hnot)] at h
      cases h
    have hslash : '/' ∈ text.toList := by
      by_contra hnot
      rw [parseUri, if_neg (by simpa using hat), if_pos (by simpa using hnot)] at h
      cases h
    obtain ⟨pinned, rest, hpinned, hat⟩ := List.eq_append_cons_of_mem hat
    obtain ⟨registry, path, hregistry, hslash⟩ := List.eq_append_cons_of_mem hslash
    obtain ⟨hlength, hfactory, digest, hdigest, huri⟩ :=
      (parseUri_of_split hpinned hat hregistry hslash factoryApp).mp h
    -- the first slash is before the first `@`
    have hname : pinned = registry ++ '/' :: pinned.drop (registry.length + 1) := by
      have htake : pinned.take (registry.length + 1) = registry ++ ['/'] := by
        have happend : (pinned ++ '@' :: rest).take (registry.length + 1) =
            pinned.take (registry.length + 1) :=
          List.take_append_of_le_length (Nat.le_of_lt hlength)
        rw [← happend, ← hpinned, hregistry, List.take_length_add_append]
        rfl
      rw [← List.singleton_append, ← List.append_assoc, ← htake, List.take_append_drop]
    refine ⟨registry, pinned.drop (registry.length + 1), rest, digest,
      ⟨?_, ⟨hslash, ?_⟩, ⟨?_, ?_⟩, hfactory, hdigest⟩, huri⟩
    · rw [hpinned]
      nth_rewrite 1 [hname]
      rw [List.append_assoc]
      rfl
    · exact fun hmem => hat (hname ▸ List.mem_append_left _ hmem)
    · rw [← List.length_pos_iff, List.length_drop]
      omega
    · exact fun hmem => hat (List.mem_of_mem_drop hmem)
  · rintro ⟨registry, name, rest, digest, hparts, huri⟩
    have hpinned : text.toList = (registry ++ '/' :: name) ++ '@' :: rest := by
      rw [hparts.text, List.append_assoc]
      rfl
    have hat : '@' ∉ registry ++ '/' :: name := by
      simp [hparts.plain_registry.2, hparts.plain_name.2]
    have hdrop : (registry ++ '/' :: name).drop (registry.length + 1) = name :=
      drop_length_succ_append
    refine (parseUri_of_split hpinned hat hparts.text hparts.plain_registry.1 factoryApp).mpr ?_
    rw [hdrop]
    refine ⟨?_, hparts.factory, digest, hparts.digest, huri⟩
    have hpos := List.length_pos_iff.mpr hparts.plain_name.1
    rw [List.length_append, List.length_cons]
    omega

/-! ## Writing a URI -/

theorem toLower_toLower (c : Char) : c.toLower.toLower = c.toLower := by
  unfold Char.toLower
  grind

/-- A digest is the text in lower case, and has the hash after its type. -/
theorem HashedDigest.parse_eq_ok {text : String} {digest : HashedDigest} :
    parse text = .ok digest ↔
      digest.digest.toList = text.toList.map Char.toLower ∧
        digest.digest.toList = type.toList ++ digest.hash.toList := by
  have hsplit : ∀ lower : List Char, lower.take type.length = type.toList →
      lower = type.toList ++ lower.drop type.length := by
    intro lower h
    rw [← h, List.take_append_drop]
  rw [parse, ite_error_eq_ok, not_not]
  constructor
  · rintro ⟨htype, h⟩
    dsimp only at h
    split at h
    · cases h
      rw [String.toList_ofList, String.toList_ofList]
      exact ⟨rfl, hsplit _ htype⟩
    · cases h
  · rintro ⟨hdigest, hhash⟩
    have htype : (text.toList.map Char.toLower).take type.length = type.toList := by
      rw [← hdigest, hhash]
      exact List.take_left
    have hrest : String.ofList ((text.toList.map Char.toLower).drop type.length) =
        digest.hash := by
      rw [← hdigest, hhash]
      exact (congrArg String.ofList List.drop_left).trans String.ofList_toList
    refine ⟨htype, ?_⟩
    have hsize := digest.size_hash
    rw [← hrest] at hsize
    rw [dif_pos hsize]
    obtain ⟨full, hash, hsize⟩ := digest
    dsimp only at hrest hdigest
    cases hrest
    have hfull : full = String.ofList (text.toList.map Char.toLower) := by
      rw [← hdigest, String.ofList_toList]
    cases hfull
    rfl

/-- In lower case it is read again. -/
theorem HashedDigest.parse_digest {text : String} {digest : HashedDigest}
    (h : parse text = .ok digest) : parse digest.digest = .ok digest := by
  obtain ⟨hdigest, hhash⟩ := parse_eq_ok.mp h
  refine parse_eq_ok.mpr ⟨?_, hhash⟩
  rw [hdigest, List.map_map]
  exact (List.map_congr_left fun c _ => toLower_toLower c).symm

theorem toList_uriText (registry name : List Char) (digest : HashedDigest) :
    (RestorableAppEngine.uriText (uriOf registry name digest)).toList =
      registry ++ '/' :: (name ++ '@' :: digest.digest.toList) := by
  simp [RestorableAppEngine.uriText, uriOf]

/-- An accepted text is written back with the digest in lower case, and read as the same URI.
The name has the factory and the app. -/
theorem uri_text_round_trip (text : String) (factoryApp : Bool) (uri : Uri)
    (h : parseUri text factoryApp = .ok uri) :
    parseUri (RestorableAppEngine.uriText uri) factoryApp = .ok uri ∧
      (∃ pinned rest, '@' ∉ pinned ∧ text.toList = pinned ++ '@' :: rest ∧
        (RestorableAppEngine.uriText uri).toList = pinned ++ '@' :: rest.map Char.toLower) ∧
      (uri.repo = uri.factory ++ "/" ++ uri.app ∧ '/' ∉ uri.app.toList ∨
        uri.factory = "" ∧ uri.repo = uri.app ∧ '/' ∉ uri.app.toList) := by
  obtain ⟨registry, name, rest, digest, hparts, rfl⟩ := parseUri_eq_ok.mp h
  have hdigest := (HashedDigest.parse_eq_ok.mp hparts.digest).1
  rw [String.toList_ofList] at hdigest
  have hwritten := toList_uriText registry name digest
  refine ⟨?_, ⟨registry ++ '/' :: name, rest, ?_, ?_, ?_⟩, ?_⟩
  · refine parseUri_eq_ok.mpr ⟨registry, name, digest.digest.toList, digest,
      ⟨hwritten, hparts.plain_registry, hparts.plain_name, hparts.factory, ?_⟩, rfl⟩
    rw [String.ofList_toList]
    exact HashedDigest.parse_digest hparts.digest
  · simp [hparts.plain_registry.2, hparts.plain_name.2]
  · rw [hparts.text, List.append_assoc]
    rfl
  · rw [hwritten, hdigest, List.append_assoc]
    rfl
  · rcases splitLastSlash_cases name with ⟨hslash, hsplit⟩ | ⟨factory, app, hname, happ, hsplit⟩
    · refine .inr ⟨?_, ?_, ?_⟩
      · rw [uriOf, hsplit]
        rfl
      · rw [uriOf, hsplit]
      · rw [uriOf, hsplit, String.toList_ofList]
        exact hslash
    · refine .inl ⟨?_, ?_⟩
      · rw [uriOf, hsplit, hname]
        apply String.toList_injective
        simp
      · rw [uriOf, hsplit, String.toList_ofList]
        exact happ

/-- Upper case letters in the digest are lost, and nothing else. -/
theorem upper_case_round_trip :
    parseUri (RestorableAppEngine.uriText (uriOf "hub.io".toList "factory/app".toList
      Descriptor.emptyDigest)) true =
        .ok (uriOf "hub.io".toList "factory/app".toList Descriptor.emptyDigest) :=
  (uri_text_round_trip ("hub.io/factory/app@SHA256:" ++
      "E3B0C44298FC1C149AFBF4C8996FB92427AE41E4649B934CA495991B7852B855") true
    (uriOf "hub.io".toList "factory/app".toList Descriptor.emptyDigest) (by decide +kernel)).1

/-! ## The directory of an app -/

def isHexDigit (c : Char) : Bool :=
  c.isDigit || ('a'.val ≤ c.val && c.val ≤ 'f'.val) || ('A'.val ≤ c.val && c.val ≤ 'F'.val)

/-- The name of an entry of a directory. -/
structure IsDirName (name : String) : Prop where
  nonempty : name ≠ ""
  single : '/' ∉ name.toList
  not_self : name ≠ "."
  not_parent : name ≠ ".."

/-- One step of a path, from the directory it has come to. -/
def goInto (dir : Path) (component : String) : Path :=
  if component = "" ∨ component = "." then dir
  else if component = ".." then dir.dropLast
  else dir ++ [component]

/-- Where a relative path leads to. -/
def resolve (root : Path) (path : String) : Path :=
  ((path.toList.splitOn '/').map String.ofList).foldl goInto root

/-- The directory of the app has the name of the app and of the version, and is two levels
below the root. -/
structure HasOwnDir (uri : Uri) : Prop where
  app : IsDirName uri.app
  hash : uri.digest.hash.toList.length = 64 ∧ ∀ c ∈ uri.digest.hash.toList, isHexDigit c = true
  dir : ∀ root, resolve root (uri.app ++ "/" ++ uri.digest.hash) =
    root ++ [uri.app, uri.digest.hash]

theorem isHexDigit_toLower (c : Char) : isHexDigit c.toLower = isHexDigit c := by
  unfold isHexDigit Char.toLower Char.isDigit
  split
  · next h =>
    have hlow : (65 : UInt32) ≤ c.val := h.1
    have hhigh : c.val ≤ (90 : UInt32) := h.2
    grind
  · rfl

theorem utf8Size_of_isHexDigit {c : Char} (h : isHexDigit c = true) : c.utf8Size = 1 := by
  rw [Char.utf8Size_eq_one_iff]
  unfold isHexDigit Char.isDigit at h
  grind

theorem length_of_isHexDigit {hash : List Char} (h : ∀ c ∈ hash, isHexDigit c = true) :
    (String.ofList hash).utf8ByteSize = hash.length := by
  induction hash with
  | nil => rfl
  | cons c rest ih =>
    rw [List.forall_mem_cons] at h
    rw [String.ofList_cons, String.utf8ByteSize_append, String.utf8ByteSize_singleton,
      utf8Size_of_isHexDigit h.1, ih h.2, List.length_cons, Nat.add_comm]

/-- Two names after the same slash. -/
theorem suffix_slash_iff {before app name : List Char} (happ : '/' ∉ app) (hname : '/' ∉ name) :
    '/' :: name <:+ before ++ '/' :: app ↔ app = name := by
  constructor
  · intro h
    rcases List.suffix_or_suffix_of_suffix h (List.suffix_append before ('/' :: app)) with
      hsuffix | hsuffix
    · rcases List.suffix_cons_iff.mp hsuffix with heq | hinside
      · exact (List.cons.inj heq).2.symm
      · exact absurd (hinside.subset List.mem_cons_self) happ
    · rcases List.suffix_cons_iff.mp hsuffix with heq | hinside
      · exact (List.cons.inj heq).2
      · exact absurd (hinside.subset List.mem_cons_self) hname
  · rintro rfl
    exact List.suffix_append _ _

theorem resolve_names {app hash : String} (happ : IsDirName app) (hhash : IsDirName hash)
    (root : Path) : resolve root (app ++ "/" ++ hash) = root ++ [app, hash] := by
  have hsplit : (app ++ "/" ++ hash).toList.splitOn '/' = [app.toList, hash.toList] := by
    have hnames : ∀ name ∈ [app.toList, hash.toList], '/' ∉ name := by
      simp [happ.single, hhash.single]
    have hintercalate := List.splitOn_intercalate '/' hnames (by simp)
    rw [← hintercalate]
    simp [List.intercalate]
  have hinto : ∀ {name : String}, IsDirName name → ∀ dir, goInto dir name = dir ++ [name] := by
    intro name h dir
    rw [goInto, if_neg (fun hor => hor.elim h.nonempty h.not_self), if_neg h.not_parent]
  rw [resolve, hsplit]
  simp only [List.map_cons, List.map_nil, String.ofList_toList, List.foldl_cons, List.foldl_nil,
    hinto happ, hinto hhash, List.append_assoc]
  rfl

theorem isDirName_of_isHexDigit {hash : String} (hlength : hash.toList.length = 64)
    (h : ∀ c ∈ hash.toList, isHexDigit c = true) : IsDirName hash where
  nonempty := by
    rintro rfl
    cases hlength
  single hmem := by
    have hslash := h _ hmem
    revert hslash
    decide
  not_self := by
    rintro rfl
    cases hlength
  not_parent := by
    rintro rfl
    cases hlength

/-- The text before the first `@` ends in a name. -/
def EndsInName (pinned : List Char) : Prop :=
  ¬ "/".toList <:+ pinned ∧ ¬ "/.".toList <:+ pinned ∧ ¬ "/..".toList <:+ pinned

theorem isDirName_iff {before app : List Char} (happ : '/' ∉ app) :
    IsDirName (String.ofList app) ↔ EndsInName (before ++ '/' :: app) := by
  have hname : ∀ name : String, '/' ∉ name.toList →
      (¬ '/' :: name.toList <:+ before ++ '/' :: app ↔ String.ofList app ≠ name) := by
    intro name hslash
    rw [suffix_slash_iff happ hslash, not_iff_not, ← String.toList_inj, String.toList_ofList]
  have hempty := hname "" (by decide)
  have hself := hname "." (by decide)
  have hparent := hname ".." (by decide)
  constructor
  · intro h
    exact ⟨hempty.mpr h.nonempty, hself.mpr h.not_self, hparent.mpr h.not_parent⟩
  · rintro ⟨h, h', h''⟩
    refine ⟨hempty.mp h, ?_, hself.mp h', hparent.mp h''⟩
    rwa [String.toList_ofList]

/-- The hash is the digest after its type, in lower case. -/
theorem forall_hash_iff {rest : List Char} {digest : HashedDigest}
    (h : HashedDigest.parse (String.ofList rest) = .ok digest) :
    (∀ c ∈ digest.hash.toList, isHexDigit c = true) ↔
      ∀ c ∈ ('@' :: rest).drop "@sha256:".length, isHexDigit c = true := by
  obtain ⟨hdigest, hhash⟩ := HashedDigest.parse_eq_ok.mp h
  have hdrop : digest.hash.toList = (rest.drop HashedDigest.type.length).map Char.toLower := by
    rw [String.toList_ofList] at hdigest
    rw [List.map_drop, ← hdigest, hhash]
    exact List.drop_left.symm
  rw [hdrop, List.forall_mem_map]
  simp only [isHexDigit_toLower]
  exact Iff.rfl

theorem hasOwnDir_iff {uri : Uri} :
    HasOwnDir uri ↔
      IsDirName uri.app ∧ ∀ c ∈ uri.digest.hash.toList, isHexDigit c = true := by
  constructor
  · exact fun h => ⟨h.app, h.hash.2⟩
  · rintro ⟨happ, hhash⟩
    have hlength : uri.digest.hash.toList.length = 64 := by
      rw [← length_of_isHexDigit hhash, String.ofList_toList, uri.digest.size_hash]
    exact ⟨happ, ⟨hlength, hhash⟩, resolve_names happ (isDirName_of_isHexDigit hlength hhash)⟩

/-- An accepted URI has a directory of its own exactly if the name in its text is not empty or
made of dots, and its digest is a number. -/
theorem has_own_dir_iff (text : String) (uri : Uri) (h : parseUri text true = .ok uri) :
    HasOwnDir uri ↔
      EndsInName (text.toList.takeWhile (· ≠ '@')) ∧
        ∀ c ∈ (text.toList.dropWhile (· ≠ '@')).drop "@sha256:".length, isHexDigit c = true := by
  obtain ⟨registry, name, rest, digest, hparts, rfl⟩ := parseUri_eq_ok.mp h
  rcases splitLastSlash_cases name with ⟨_, hsplit⟩ | ⟨factory, app, rfl, hslash, hsplit⟩
  · have hfactory := (hparts.factory rfl).1
    rw [hsplit] at hfactory
    exact absurd rfl hfactory
  have happ : (uriOf registry (factory ++ '/' :: app) digest).app = String.ofList app := by
    rw [uriOf, hsplit]
  have htext : text.toList = (registry ++ '/' :: factory ++ '/' :: app) ++ '@' :: rest := by
    rw [hparts.text]
    simp
  have hat : '@' ∉ registry ++ '/' :: factory ++ '/' :: app := by
    have hname := hparts.plain_name.2
    simp only [List.mem_append, List.mem_cons, not_or] at hname ⊢
    exact ⟨⟨hparts.plain_registry.2, by decide, hname.1⟩, hname.2⟩
  have hafter : text.toList.dropWhile (· ≠ '@') = '@' :: rest := by
    rw [htext]
    exact dropWhile_ne_append hat
  rw [hafter, htext, takeWhile_ne_append hat]
  rw [hasOwnDir_iff, happ]
  refine and_congr ?_ ?_
  · exact isDirName_iff hslash
  · exact forall_hash_iff hparts.digest

theorem size_letterHash_a : (RestorableAppEngine.letterHash "a").utf8ByteSize = 64 := by
  decide +kernel

/-- The app `app` with the manifest `a`. -/
def plainUri : Uri :=
  uriOf "hub.io".toList "factory/app".toList
    ⟨"sha256:" ++ RestorableAppEngine.letterHash "a", RestorableAppEngine.letterHash "a",
      size_letterHash_a⟩

theorem plain_uri_has_own_dir : HasOwnDir plainUri :=
  (has_own_dir_iff (RestorableAppEngine.letterUri "app" "a") plainUri (by decide +kernel)).mpr
    ⟨by unfold EndsInName; decide +kernel, List.all_eq_true.mp (by decide +kernel)⟩

/-- The name of the app is the parent directory. -/
def parentText : String := "hub.io/factory/..@sha256:" ++ RestorableAppEngine.letterHash "a"

/-- The hash goes up to the root directory. -/
def upwardsText : String :=
  "hub.io/factory/app@sha256:../../../../../../../../../../../../../../../../../../../../../."

/-- Both are accepted, and the directory is beside the root of the apps, or above it. -/
theorem directory_elsewhere :
    (∃ uri, parseUri parentText true = .ok uri ∧ ¬ HasOwnDir uri ∧
      resolve ["var", "sota", "apps"] (uri.app ++ "/" ++ uri.digest.hash) =
        ["var", "sota", RestorableAppEngine.letterHash "a"]) ∧
    ∃ uri, parseUri upwardsText true = .ok uri ∧ ¬ HasOwnDir uri ∧
      resolve ["var", "sota", "apps"] (uri.app ++ "/" ++ uri.digest.hash) = [] := by
  constructor
  · obtain ⟨uri, huri, htest⟩ := exists_ok_of_any (x := parseUri parentText true)
      (p := fun uri => decide (uri.app = ".." ∧
        resolve ["var", "sota", "apps"] (uri.app ++ "/" ++ uri.digest.hash) =
          ["var", "sota", RestorableAppEngine.letterHash "a"])) (by decide +kernel)
    obtain ⟨happ, hresolve⟩ := of_decide_eq_true htest
    exact ⟨uri, huri, fun h => h.app.not_parent happ, hresolve⟩
  · obtain ⟨uri, huri, htest⟩ := exists_ok_of_any (x := parseUri upwardsText true)
      (p := fun uri => decide ('.' ∈ uri.digest.hash.toList ∧
        resolve ["var", "sota", "apps"] (uri.app ++ "/" ++ uri.digest.hash) = []))
      (by decide +kernel)
    obtain ⟨hdot, hresolve⟩ := of_decide_eq_true htest
    refine ⟨uri, huri, fun h => ?_, hresolve⟩
    exact absurd (h.hash.2 '.' hdot) (by decide)

end Docker
end AkLite
