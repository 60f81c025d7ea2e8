import SnmpLens.Lib.Base64
import SnmpLens.Lib.Filepath
import SnmpLens.Lib.Fold
import SnmpLens.Lib.Hex
import SnmpLens.Lib.Strings

/-!
# The updater

`pkg/updater`: a check asks for the latest release and remembers what it would install, and
`DownloadAndApply` fetches the checksums of that release, their signature and the asset, and
applies the asset when its SHA-256 is the one listed. Whoever answers is not trusted: an answer
is any octets at all, or an error.

`Library` is what nothing below looks into: `encoding/json` and `net/url`, the signature and the
hash, and `semver`. What is done after a binary has been handed over is left out, and so are the
progress events.
-/

namespace SnmpLens.Updater

open Utf8 Strings

/-! ## A release -/

structure GhAsset where
  name : Octets
  browserDownloadURL : Octets

/-- What is read of a release. -/
structure GhRelease where
  tagName : Octets
  body : Octets
  htmlURL : Octets
  publishedAt : Octets
  assets : List GhAsset

/-- The address of the asset of that name, or nothing. -/
def GhRelease.assetURL (r : GhRelease) (name : Octets) : Octets :=
  match r.assets.find? fun a => a.name == name with
  | some a => a.browserDownloadURL
  | none => []

def checksumsAsset : Octets := octets "SnmpLens-checksums.txt"

structure Library where
  /-- `json.Decoder`, of a release. -/
  decodeRelease : Octets → Except Octets GhRelease
  /-- `url.Parse`: the scheme and the host name. -/
  parseURL : Octets → Option (Octets × Octets)
  /-- `strings.ToLower`. -/
  toLower : Octets → Octets
  /-- `%q`. -/
  quote : Octets → Octets
  /-- `semver.IsValid`. -/
  isValid : Octets → Bool
  /-- `semver.Compare`. -/
  compare : Octets → Octets → Int
  /-- `ed25519.Verify`, of a key, a message and a signature. -/
  verify : Octets → Octets → Octets → Bool
  /-- `sha256.Sum256`. -/
  sha256 : Octets → Octets
  /-- How long the volume name in front of a Windows path is. -/
  volumeName : Octets → Nat

/-! ## The platform -/

inductive ApplyMode where
  | replace | installer | browser
  deriving DecidableEq

/-- What a copy runs on. -/
inductive Platform where
  /-- Linux; installed from the `.deb`, or portable. -/
  | linux (managed : Bool)
  /-- Windows; installed by the installer, or portable. -/
  | windows (installed : Bool)
  | darwin

namespace Platform

def target : Platform → Octets × ApplyMode
  | .linux true => (octets "SnmpLens-linux-amd64.deb", .browser)
  | .linux false => (octets "SnmpLens-linux-amd64", .replace)
  | .windows true => (octets "SnmpLens-windows-amd64-setup.exe", .installer)
  | .windows false => (octets "SnmpLens-windows-amd64.exe", .replace)
  | .darwin => (octets "SnmpLens-macos-universal.dmg", .browser)

/-- How paths are written there. -/
def paths (lib : Library) : Platform → Filepath.Paths
  | .windows _ =>
      { isSeparator := fun b => b == chr '/' || b == chr '\\'
        separator := chr '\\'
        volume := lib.volumeName }
  | _ => Filepath.unix

end Platform

/-! ## Versions -/

/-- `strings.TrimPrefix`. -/
def trimPrefix (word s : Octets) : Octets := if word.isPrefixOf s then s.drop word.length else s

/-- With a `v` in front. -/
def normalizeVersion (v : Octets) : Octets :=
  match trimSpace v with
  | [] => []
  | a :: rest =>
      if a ≠ chr 'v' ∧ a ≠ chr 'V' then chr 'v' :: a :: rest
      else chr 'v' :: trimPrefix (octets "V") (trimPrefix (octets "v") (a :: rest))

def displayVersion (v : Octets) : Octets := trimPrefix (octets "v") (trimSpace v)

/-- Whether `latest` is a later version than `current`. -/
def isNewer (lib : Library) (current latest : Octets) : Bool :=
  let c := normalizeVersion current
  let l := normalizeVersion latest
  if !lib.isValid c || !lib.isValid l then false else lib.compare c l < 0

def isDevVersion (version : Octets) : Bool := version = [] || version = octets "dev"

/-! ## The signature -/

/-- The keys that are embedded. -/
def updaterPublicKeys : List Octets :=
  [octets "TPh8H92qyRkMFpc1CXCJKp/G5jf4OTqlHd6Mx0BHljs=",
    octets "svOWbkIuFQTiebt+DKzaohFFdeANV8NjcdX3cQiybPw="]

def signatureEnforced (keys : List Octets) : Bool := keys.any fun key => trimSpace key ≠ []

/-- `ed25519.PublicKeySize`. -/
def publicKeySize : Nat := 32

/-- The key an entry of the list stands for. -/
def publicKey (encoded : Octets) : Option Octets :=
  let encoded := trimSpace encoded
  if encoded = [] then none
  else
    match Base64.decode encoded with
    | .error _ => none
    | .ok pub => if pub.length = publicKeySize then some pub else none

def verifySignature (lib : Library) (keys : List Octets) (manifest sigBase64 : Octets) :
    Except Octets Unit :=
  match Base64.decode (trimSpace sigBase64) with
  | .error n =>
      .error (octets "decoding signature: illegal base64 data at input byte " ++ formatUint n)
  | .ok sig =>
      let usable := keys.filterMap publicKey
      if usable.any fun pub => lib.verify pub manifest sig then .ok ()
      else if usable = [] then .error (octets "invalid embedded updater public key")
      else .error (octets "checksums signature verification failed")

/-! ## The manifest -/

def manifestVersionPrefix : Octets := octets "version "

/-- A manifest that is not the one for `want` is refused. -/
def checkManifestVersion (manifest want : Octets) : Except Octets Unit :=
  let first := trimSpace (cut [chr '\n'] (trimSpace manifest)).1
  if manifestVersionPrefix.isPrefixOf first then
    let got := trimSpace (trimPrefix manifestVersionPrefix first)
    if got = want then .ok ()
    else
      .error (octets "checksums manifest is for " ++ got ++ octets ", not " ++ want
        ++ octets "; refusing a replayed manifest")
  else .error (octets "checksums manifest is not bound to a release; refusing it")

/-- `bufio.ScanLines`: a line without the carriage return behind it. -/
def dropCR (line : Octets) : Octets :=
  if line.getLast? = some (chr '\r') then line.dropLast else line

/-- The lines a `bufio.Scanner` finds: behind the last line break there is one if there is
anything. -/
def scanLines (s : Octets) : List Octets :=
  let lines := s.splitOn (chr '\n')
  if lines.getLast? = some [] then lines.dropLast else lines

/-- `bufio.MaxScanTokenSize`. -/
def maxScanTokenSize : Nat := 65536

/-- The sum a line gives for the asset. -/
def entry (lib : Library) (p : Platform) (asset line : Octets) : Option Octets :=
  let line := trimSpace (dropCR line)
  if manifestVersionPrefix.isPrefixOf line then none
  else
    match fields line with
    | [sum, name] => if Filepath.base (p.paths lib) (trimPrefix (octets "*") name) = asset then some sum else none
    | _ => none

/-- The loop of `parseChecksum`. -/
def findEntry (lib : Library) (p : Platform) (asset : Octets) : List Octets → Except Octets Octets
  | [] => .error (octets "no checksum entry for " ++ asset)
  | line :: rest =>
      if maxScanTokenSize ≤ line.length then .error (octets "bufio.Scanner: token too long")
      else
        match entry lib p asset line with
        | some sum => .ok sum
        | none => findEntry lib p asset rest

def parseChecksum (lib : Library) (p : Platform) (manifest asset : Octets) : Except Octets Octets :=
  findEntry lib p asset (scanLines manifest)

/-! ## What is fetched -/

/-- What the network returns. -/
inductive Answer where
  | failed (err : Octets)
  /-- A status other than 200. -/
  | refused (status body : Octets)
  | ok (body : Octets)

/-- `fetchBytes`: a mebibyte at most. -/
def fetchBytes : Answer → Except Octets Octets
  | .failed err => .error err
  | .refused status _ => .error (octets "unexpected status " ++ status)
  | .ok body => .ok (body.take (1024 * 1024))

def latestRelease (lib : Library) : Answer → Except Octets GhRelease
  | .failed err => .error (octets "contacting GitHub: " ++ err)
  | .refused status body =>
      .error (octets "GitHub API returned " ++ status ++ octets ": " ++ body.take 512)
  | .ok body =>
      match lib.decodeRelease body with
      | .error err => .error (octets "decoding release: " ++ err)
      | .ok rel => .ok rel

/-- `download`: the file, and its SHA-256 in hexadecimal. -/
def download (lib : Library) : Answer → Except Octets (Octets × Octets)
  | .failed err => .error err
  | .refused status _ => .error (octets "unexpected status " ++ status)
  | .ok body => .ok (body, Hex.encode (lib.sha256 body))

/-- The sum a release's manifest lists for the asset, where the manifest is a signed one. -/
def verifiedChecksum (lib : Library) (p : Platform) (keys : List Octets)
    (sigURL asset version : Octets) (manifest sig : Answer) : Except Octets Octets :=
  match fetchBytes manifest with
  | .error err => .error (octets "fetching checksums: " ++ err)
  | .ok manifest =>
      if signatureEnforced keys then
        if sigURL = [] then
          .error (octets "release is missing " ++ checksumsAsset
            ++ octets ".sig; refusing an unsigned update")
        else
          match fetchBytes sig with
          | .error err => .error (octets "fetching signature: " ++ err)
          | .ok sig =>
              match verifySignature lib keys manifest sig with
              | .error err => .error err
              | .ok () =>
                  match checkManifestVersion manifest version with
                  | .error err => .error err
                  | .ok () => parseChecksum lib p manifest asset
      else parseChecksum lib p manifest asset

/-! ## The service -/

/-- What a check has found, and is to be installed. -/
structure Pending where
  version : Octets
  assetURL : Octets
  assetName : Octets
  checksumURL : Octets
  checksumSigURL : Octets
  mode : ApplyMode

structure UpdateInfo where
  available : Bool := false
  currentVersion : Octets
  latestVersion : Octets := []
  releaseNotes : Octets := []
  releaseURL : Octets := []
  publishedAt : Octets := []
  assetName : Octets := []
  assetURL : Octets := []
  canSelfApply : Bool := false

/-- A copy of the program: what it is built with, what it runs on, and what it remembers. -/
structure Service where
  lib : Library
  platform : Platform
  keys : List Octets
  version : Octets
  pending : Option Pending := none

namespace Service

/-- What a check finds, and what it is to remember. -/
def found (s : Service) (rel : GhRelease) : Pending where
  version := rel.tagName
  assetURL := rel.assetURL s.platform.target.1
  assetName := s.platform.target.1
  checksumURL := rel.assetURL checksumsAsset
  checksumSigURL := rel.assetURL (checksumsAsset ++ octets ".sig")
  mode := s.platform.target.2

def checkForUpdate (s : Service) (answer : Answer) : (UpdateInfo × Option Octets) × Service :=
  let info : UpdateInfo := { currentVersion := displayVersion s.version }
  if isDevVersion s.version then ((info, none), s)
  else
    match latestRelease s.lib answer with
    | .error err => ((info, some err), s)
    | .ok rel =>
        let info := { info with
          latestVersion := displayVersion rel.tagName
          releaseNotes := trimSpace rel.body
          releaseURL := rel.htmlURL
          publishedAt := rel.publishedAt }
        if isNewer s.lib s.version rel.tagName then
          let p := s.found rel
          if p.assetURL = [] then
            ((info, some (octets "release " ++ rel.tagName ++ octets " has no asset "
              ++ s.lib.quote p.assetName ++ octets " for this platform")), s)
          else
            (({ info with
                available := true
                assetName := p.assetName
                assetURL := p.assetURL
                canSelfApply := p.mode ≠ .browser }, none),
              { s with pending := some p })
        else ((info, none), s)

end Service

/-- The hosts a release asset is served from. -/
def releaseHosts : List Octets :=
  [octets "github.com", octets "www.github.com", octets "objects.githubusercontent.com",
    octets "release-assets.githubusercontent.com"]

def checkReleaseHost (lib : Library) (raw : Octets) : Except Octets Unit :=
  match lib.parseURL raw with
  | none => .error (octets "the release names a download address that cannot be parsed")
  | some (scheme, hostname) =>
      if Fold.equalFold scheme (octets "https") then
        if releaseHosts.contains (lib.toLower hostname) then .ok ()
        else
          .error (octets "refusing to open a download from " ++ lib.quote hostname
            ++ octets ": a release asset is served from GitHub, and this address is not")
      else
        .error (octets "refusing to open the download over " ++ lib.quote scheme
          ++ octets "; it must be https")

/-- How `DownloadAndApply` ends. -/
inductive Outcome where
  | failed (err : Octets)
  /-- The address is opened in the browser. -/
  | opened (url : Octets)
  /-- The file is handed to `applyBinary` or to `runInstaller`. -/
  | applied (mode : ApplyMode) (file : Octets)
  deriving DecidableEq

/-- What the network returns to `DownloadAndApply`. -/
structure Answers where
  manifest : Answer
  sig : Answer
  asset : Answer

def Service.downloadAndApply (s : Service) (a : Answers) : Outcome :=
  match s.pending with
  | none => .failed (octets "no update ready; run a check first")
  | some p =>
      if p.mode = .browser then
        match checkReleaseHost s.lib p.assetURL with
        | .error err => .failed err
        | .ok () => .opened p.assetURL
      else if p.checksumURL = [] then
        .failed (octets "release " ++ p.version ++ octets " is missing " ++ checksumsAsset
          ++ octets "; cannot verify the download")
      else
        match verifiedChecksum s.lib s.platform s.keys p.checksumSigURL p.assetName p.version
            a.manifest a.sig with
        | .error err => .failed err
        | .ok wantSum =>
            match download s.lib a.asset with
            | .error err => .failed (octets "downloading update: " ++ err)
            | .ok (file, gotSum) =>
                if Fold.equalFold wantSum gotSum then .applied p.mode file
                else
                  .failed (octets "checksum mismatch: expected " ++ wantSum ++ octets ", got "
                    ++ gotSum)

/-- A call, and what the network returns to it. -/
inductive Call where
  | checkForUpdate (answer : Answer)
  | downloadAndApply (answers : Answers)

/-- What a call leaves behind. -/
def Service.call (s : Service) : Call → Service
  | .checkForUpdate answer => (s.checkForUpdate answer).2
  | .downloadAndApply _ => s

end SnmpLens.Updater
