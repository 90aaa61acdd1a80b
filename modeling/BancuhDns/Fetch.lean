import BancuhDns.Text
import Mathlib.Data.List.Range

/-!
# Fetching a text

A text comes from a URL or from a file. A URL is asked for up to five times: an
attempt that could not be sent is followed by the next one, while the first
response settles the matter – its body is the text, and a body that cannot be
read is an error, whatever attempts are left. The status of a response is not
looked at.

What the outside world does is a parameter, `BancuhDns.Env`: one value of it is
the world as one fetch sees it.
-/

namespace BancuhDns

/-- An error of the HTTP client. -/
structure ReqwestError where
  /-- What the client reports. -/
  message : Text
  deriving DecidableEq

/-- An error of the file system. -/
structure IoError where
  /-- What the system reports. -/
  message : Text
  deriving DecidableEq

/-- A URL. -/
structure Url where
  /-- The text of the URL. -/
  val : Text
  deriving DecidableEq

/-- A path of the file system. -/
structure PathBuf where
  /-- The text of the path. -/
  val : Text
  deriving DecidableEq

/-- A response of an HTTP server. -/
structure Response where
  /-- The status code. -/
  status : ℕ
  /-- The body, when it can be read to the end. -/
  text : Except ReqwestError Text

/-- **The outside world, as the loading of one text sees it.** -/
structure Env where
  /-- What becomes of each attempt to send a request. -/
  send : Url → ℕ → Except ReqwestError Response
  /-- `std::fs::read_to_string`. -/
  readToString : PathBuf → Except IoError Text
  /-- Whether the blocking task that parses the text runs to its end. -/
  joins : Bool

/-- The world in which every file reads as one text and no server answers. -/
def fileEnv (text : Text) : Env where
  send _ _ := .error ⟨[]⟩
  readToString _ := .ok text
  joins := true

/-! ### Over HTTP -/

/-- An error of `FetchHttp::fetch`. -/
inductive FetchHTTPError where
  /-- The client failed. -/
  | httpError (e : ReqwestError)
  /-- No attempt was made. -/
  | unknown
  deriving DecidableEq

/-- The loop of `FetchHttp::fetch` over the attempts left, `lastError` being what
the attempts made so far have come to. -/
def fetchAttempts (env : Env) (url : Url) :
    List ℕ → FetchHTTPError → Except FetchHTTPError Text
  | [], lastError => .error lastError
  | i :: is, _ =>
    match env.send url i with
    -- the first response settles it, whatever its status
    | .ok response =>
      match response.text with
      | .ok text => .ok text
      | .error e => .error (.httpError e)
    | .error e => fetchAttempts env url is (.httpError e)

/-- `FetchHttp::fetch`: attempts `1..=5`. -/
def fetchHttp (env : Env) (url : Url) : Except FetchHTTPError Text :=
  fetchAttempts env url (List.range' 1 5) .unknown

/-! ### From a file -/

/-- An error of `FetchFile::fetch`. -/
inductive FetchFileError where
  /-- The file could not be read. -/
  | fileError (e : IoError)
  deriving DecidableEq

/-- `FetchFile::fetch`. -/
def fetchFile (env : Env) (path : PathBuf) : Except FetchFileError Text :=
  match env.readToString path with
  | .ok contents => .ok contents
  | .error e => .error (.fileError e)

/-! ### From either -/

/-- A text to fetch: over HTTP or from a file. -/
inductive Fetch where
  /-- Over HTTP. -/
  | http (url : Url)
  /-- From a file. -/
  | file (path : PathBuf)
  deriving DecidableEq

/-- An error of `Fetch::fetch`. -/
inductive FetchError where
  /-- Over HTTP. -/
  | httpError (e : FetchHTTPError)
  /-- From a file. -/
  | fileError (e : FetchFileError)
  deriving DecidableEq

/-- `Fetch::fetch`. -/
def Fetch.fetch (env : Env) : Fetch → Except FetchError Text
  | .http url =>
    match fetchHttp env url with
    | .ok text => .ok text
    | .error e => .error (.httpError e)
  | .file path =>
    match fetchFile env path with
    | .ok text => .ok text
    | .error e => .error (.fileError e)

/-! ### When a fetch fails -/

/-- **A fetch fails exactly when** no attempt could be sent, or the first one
answered has a body that cannot be read, or the file cannot be read. -/
inductive FetchFails (env : Env) : Fetch → Prop
  /-- The connection failed on all attempts. -/
  | noConnection {u : Url} (h : ∀ i, 1 ≤ i → i ≤ 5 → ∃ e, env.send u i = .error e) :
      FetchFails env (.http u)
  /-- The body of the first response cannot be read. -/
  | unreadableBody {u : Url} {i : ℕ} {r : Response} {e : ReqwestError} (h1 : 1 ≤ i) (h5 : i ≤ 5)
      (hbefore : ∀ j, 1 ≤ j → j < i → ∃ e, env.send u j = .error e)
      (hsend : env.send u i = .ok r) (hbody : r.text = .error e) : FetchFails env (.http u)
  /-- The file cannot be read. -/
  | unreadableFile {p : PathBuf} {e : IoError} (h : env.readToString p = .error e) :
      FetchFails env (.file p)

/-- The loop fails when every attempt left does, or the first one answered has a
body that cannot be read. -/
theorem fetchAttempts_error_iff (env : Env) (u : Url) (k n : ℕ) (last : FetchHTTPError) :
    (∃ e, fetchAttempts env u (List.range' k n) last = .error e) ↔
      (∀ i, k ≤ i → i < k + n → ∃ e, env.send u i = .error e) ∨
      ∃ i r e, k ≤ i ∧ i < k + n ∧ (∀ j, k ≤ j → j < i → ∃ e, env.send u j = .error e) ∧
        env.send u i = .ok r ∧ r.text = .error e := by
  induction n generalizing k last with
  | zero =>
    refine ⟨fun _ => Or.inl fun i h1 h2 => absurd h1 (by omega), fun _ => ⟨last, rfl⟩⟩
  | succ n ih =>
    rw [List.range'_succ, fetchAttempts]
    cases hs : env.send u k with
    | error e =>
      -- this attempt is lost, and the attempts left decide
      refine (ih (k + 1) (.httpError e)).trans ?_
      have hk : ∃ e, env.send u k = .error e := ⟨e, hs⟩
      constructor
      · rintro (h | ⟨i, r, e', h1, h2, hb, hr, hbody⟩)
        · refine Or.inl fun i h1 h2 => ?_
          rcases Nat.eq_or_lt_of_le h1 with rfl | hlt
          · exact hk
          · exact h i hlt (by omega)
        · refine Or.inr ⟨i, r, e', by omega, by omega, fun j hj1 hj2 => ?_, hr, hbody⟩
          rcases Nat.eq_or_lt_of_le hj1 with rfl | hlt
          · exact hk
          · exact hb j hlt hj2
      · rintro (h | ⟨i, r, e', h1, h2, hb, hr, hbody⟩)
        · exact Or.inl fun i h1 h2 => h i (by omega) (by omega)
        · have hne : i ≠ k := by
            rintro rfl
            rw [hs] at hr
            cases hr
          exact Or.inr ⟨i, r, e', by omega, by omega, fun j hj1 hj2 => hb j (by omega) hj2,
            hr, hbody⟩
    | ok r =>
      -- this attempt is answered, so it is the last
      have hfirst : ¬∃ e, env.send u k = .error e := by
        rintro ⟨e, he⟩
        rw [hs] at he
        cases he
      cases hb : r.text with
      | ok text =>
        refine ⟨fun ⟨e, he⟩ => by simp [hb] at he, ?_⟩
        rintro (h | ⟨i, r', e', h1, h2, hbef, hr, hbody⟩)
        · exact absurd (h k le_rfl (by omega)) hfirst
        · rcases Nat.eq_or_lt_of_le h1 with rfl | hlt
          · rw [hs] at hr
            obtain rfl := Except.ok.inj hr
            rw [hb] at hbody
            cases hbody
          · exact absurd (hbef k le_rfl hlt) hfirst
      | error e =>
        exact ⟨fun _ => Or.inr ⟨k, r, e, le_rfl, by omega, fun j h1 h2 => absurd h1 (by omega),
          hs, hb⟩, fun _ => ⟨.httpError e, by simp [hb]⟩⟩

/-- **When a fetch fails**: exactly in the cases of `BancuhDns.FetchFails`. -/
theorem fetch_error_iff (env : Env) (f : Fetch) :
    (∃ e, f.fetch env = .error e) ↔ FetchFails env f := by
  cases f with
  | http u =>
    have hloop := fetchAttempts_error_iff env u 1 5 .unknown
    have hfetch : (∃ e, (Fetch.http u).fetch env = .error e) ↔
        ∃ e, fetchAttempts env u (List.range' 1 5) .unknown = .error e := by
      rw [Fetch.fetch, fetchHttp]
      cases fetchAttempts env u (List.range' 1 5) .unknown <;> simp
    rw [hfetch, hloop]
    constructor
    · rintro (h | ⟨i, r, e, h1, h5, hb, hr, hbody⟩)
      · exact .noConnection fun i h1 h5 => h i h1 (by omega)
      · exact .unreadableBody h1 (by omega) hb hr hbody
    · rintro (h | ⟨h1, h5, hb, hr, hbody⟩)
      · exact Or.inl fun i h1 h5 => h i h1 (by omega)
      · exact Or.inr ⟨_, _, _, h1, by omega, hb, hr, hbody⟩
  | file p =>
    rw [Fetch.fetch, fetchFile]
    constructor
    · rintro ⟨e, he⟩
      cases hr : env.readToString p with
      | ok text => simp [hr] at he
      | error e' => exact .unreadableFile hr
    · rintro (_ | _ | h)
      exact ⟨_, by rw [h]⟩

end BancuhDns
