import Mathlib
import ChainRules.Digest.Registry

/-!
# Registering hash functions

A registry starts with the network's own algorithms. Whoever asks first for an identifier that is free
gets it for good, and a request for a taken one changes nothing. So a look-up finds the network's
algorithm if there is one under the identifier, whatever was registered since, and otherwise the
function of the first request.
-/

namespace ChainRules.Digest

namespace Algorithm

theorem mem_all (a : Algorithm) : a ∈ all := by
  cases a <;> decide

theorem identifier_injective : Function.Injective identifier := by
  intro a b
  cases a <;> cases b <;> decide

/-- No two algorithms have the same identifier, so each is found under its own. -/
theorem find?_all_eq_some_iff {key : String} {a : Algorithm} :
    all.find? (·.identifier = key) = some a ↔ a.identifier = key := by
  refine ⟨fun h => by simpa using List.find?_some h, ?_⟩
  rintro rfl
  cases hfound : all.find? (·.identifier = a.identifier) with
  | none => exact absurd (List.find?_eq_none.1 hfound a (mem_all a)) (by simp)
  | some b =>
    have hsame : b.identifier = a.identifier := by simpa using List.find?_some hfound
    rw [identifier_injective hsame]

theorem find_eq_ok_iff {identifier : String} {a : Algorithm} :
    find identifier = .ok a ↔ a.identifier = upperCase identifier := by
  rw [← find?_all_eq_some_iff, find]
  cases all.find? (·.identifier = upperCase identifier) <;> simp

end Algorithm

/-- A request to register a function. -/
structure Registration where
  identifier : String
  function : HashFunction

/-- The identifier that a request asks for, in upper case. -/
def Registration.key (c : Registration) : String :=
  upperCase c.identifier

namespace Registry

/-- Serves a request: the answer to it and the registry after it. -/
def serve (r : Registry) (c : Registration) : Except Fault Unit × Registry :=
  match r.register c.identifier c.function with
  | .ok next => (.ok (), next)
  | .error fault => (.error fault, r)

/-- Serves requests in order: the answers to them and the registry after them. -/
def serveAll (r : Registry) : List Registration → List (Except Fault Unit) × Registry
  | [] => ([], r)
  | c :: rest =>
    let (answer, next) := r.serve c
    let (answers, last) := next.serveAll rest
    (answer :: answers, last)

variable {r : Registry} {c : Registration}

/-- A request for a free identifier adds an entry, and one for a taken identifier is refused. -/
theorem serve_cases (r : Registry) (c : Registration) :
    (r.get? c.key = none ∧ r.serve c = (.ok (), ⟨r.entries ++ [(c.key, c.function)]⟩)) ∨
      (∃ f, r.get? c.key = some f) ∧
        r.serve c = (.error (.unsupported (.takenAlgorithm c.identifier)), r) := by
  unfold serve register
  rw [← Registration.key]
  cases hfound : r.get? c.key with
  | none => exact .inl ⟨rfl, rfl⟩
  | some f => exact .inr ⟨⟨f, rfl⟩, rfl⟩

theorem serve_eq_ok_iff : (r.serve c).1 = .ok () ↔ r.get? c.key = none := by
  rcases serve_cases r c with ⟨hfree, hserve⟩ | ⟨⟨f, htaken⟩, hserve⟩
  · simp [hserve, hfree]
  · simp [hserve, htaken]

/-- What is found after a request: what was found before, or else the function of the request. -/
theorem get?_serve (r : Registry) (c : Registration) (key : String) :
    (r.serve c).2.get? key = (r.get? key).or (if c.key = key then some c.function else none) := by
  rcases serve_cases r c with ⟨-, hserve⟩ | ⟨⟨f, htaken⟩, hserve⟩
  · rw [hserve]
    exact underKey_concat r.entries key (c.key, c.function)
  · rw [hserve]
    by_cases hkey : c.key = key
    · rw [← hkey, htaken, Option.some_or]
    · rw [if_neg hkey, Option.or_none]

/-- What is found after requests: what was found before, or else the function of the first request for
the key. -/
theorem get?_serveAll (requests : List Registration) (r : Registry) (key : String) :
    (r.serveAll requests).2.get? key =
      (r.get? key).or ((requests.find? (·.key = key)).map Registration.function) := by
  induction requests generalizing r with
  | nil => exact (Option.or_none).symm
  | cons c requests ih =>
    rw [serveAll]
    dsimp only
    rw [ih, get?_serve, Option.or_assoc]
    by_cases hkey : c.key = key
    · simp [hkey]
    · simp [hkey]

/-- Every request that is served adds one entry, and no other does. -/
theorem size_serveAll (requests : List Registration) (r : Registry) :
    (r.serveAll requests).2.size = r.size + (r.serveAll requests).1.count (.ok ()) := by
  induction requests generalizing r with
  | nil => rfl
  | cons c requests ih =>
    rw [serveAll]
    dsimp only
    rw [ih, List.count_cons]
    rcases serve_cases r c with ⟨-, hserve⟩ | ⟨-, hserve⟩
    · rw [hserve, if_pos (beq_self_eq_true _), size, List.length_append, List.length_singleton,
        ← size, Nat.add_assoc, Nat.add_comm 1]
    · rw [hserve, if_neg (by simp), Nat.add_zero]

theorem get?_standard (key : String) :
    standard.get? key =
      (Algorithm.all.find? (·.identifier = key)).map Algorithm.function :=
  underKey_map Algorithm.identifier Algorithm.function Algorithm.all key

/-- The function of the first request for a key is kept under it, unless an algorithm of the network
is. -/
theorem get?_serveAll_standard (requests : List Registration) (key : String) :
    (standard.serveAll requests).2.get? key =
      ((Algorithm.all.find? (·.identifier = key)).map Algorithm.function).or
        ((requests.find? (·.key = key)).map Registration.function) := by
  rw [get?_serveAll, get?_standard]

/-- After requests to register functions, a look-up finds the algorithm of the network that has the
identifier, and if there is none, the function of the first request for it. A request is served if and
only if neither an algorithm nor an earlier request has its identifier; one that is refused changes
nothing, and there are as many functions as algorithms and served requests together. -/
theorem algorithms_fixed (requests : List Registration) (c : Registration) (identifier : String) :
    let r := (standard.serveAll requests).2
    (∀ a, Algorithm.find identifier = .ok a ↔ a.identifier = upperCase identifier) ∧
      r.find identifier =
        (match Algorithm.find identifier with
        | .ok a => .ok a.function
        | .error _ =>
          match requests.find? (·.key = upperCase identifier) with
          | some first => .ok first.function
          | none => .error (.notFound (.algorithm identifier))) ∧
      ((r.serve c).1 = .ok () ↔
        (∀ a : Algorithm, a.identifier ≠ c.key) ∧ ∀ earlier ∈ requests, earlier.key ≠ c.key) ∧
      ((r.serve c).1 = .ok () ∨
        r.serve c = (.error (.unsupported (.takenAlgorithm c.identifier)), r)) ∧
      r.size = 6 + (standard.serveAll requests).1.count (.ok ()) := by
  intro r
  refine ⟨fun a => Algorithm.find_eq_ok_iff, ?_, ?_, ?_, size_serveAll requests standard⟩
  · unfold find Algorithm.find
    rw [get?_serveAll_standard]
    cases Algorithm.all.find? (·.identifier = upperCase identifier) with
    | some a => rfl
    | none => cases requests.find? (·.key = upperCase identifier) <;> rfl
  · rw [serve_eq_ok_iff, get?_serveAll_standard, Option.or_eq_none_iff]
    simp [Algorithm.mem_all]
  · rcases serve_cases r c with ⟨-, hserve⟩ | ⟨-, hserve⟩
    · exact .inl (congrArg Prod.fst hserve)
    · exact .inr hserve

/-- Only the letters of ASCII have two cases, and an algorithm of the network is never replaced. -/
example :
    let f : HashFunction := fun message => .ok message.reverse
    (standard.serveAll [⟨"zéro", f⟩, ⟨"ZÉRO", f⟩, ⟨"Zéro", f⟩, ⟨"sha1", f⟩]).1 =
      [.ok (), .ok (), .error (.unsupported (.takenAlgorithm "Zéro")),
        .error (.unsupported (.takenAlgorithm "sha1"))] := by
  cbv

end Registry

end ChainRules.Digest
