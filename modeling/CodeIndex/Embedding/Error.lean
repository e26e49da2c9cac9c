/-!
Why an embedding call fails. Transient failures are worth another try, and once tries run out they count as a
rate limit; all others count as failures of the provider.
-/

namespace CodeIndex

inductive EmbedError where
  /-- No answer came; a refused or timed-out connection is transient. -/
  | http (transient : Bool)
  | json
  | rateLimited (provider : String) (retryAfterMs : Option Nat)
  | server (provider : String) (status : Nat)
  | unavailable (provider message : String)
  | permanent (provider message : String)
  | emptyResponse (provider : String)
  | noProvider
  | other (message : String)
  deriving DecidableEq, Repr

namespace EmbedError

def isTransient : EmbedError → Bool
  | http transient => transient
  | rateLimited .. | server .. | unavailable .. => true
  | _ => false

def isRateLimit : EmbedError → Bool
  | rateLimited .. => true
  | _ => false

/-- How long the provider asks to wait. -/
def retryAfterMs? : EmbedError → Option Nat
  | rateLimited _ after => after
  | _ => none

def message : EmbedError → String
  | http _ => "HTTP request failed"
  | json => "JSON parse failed"
  | rateLimited provider _ => s!"rate limited by {provider}"
  | server provider status => s!"{provider} server error (status {status})"
  | unavailable provider m => s!"{provider} unavailable: {m}"
  | permanent provider m => s!"{provider} rejected the request: {m}"
  | emptyResponse provider => s!"empty response from {provider}"
  | noProvider => "no embedding provider available"
  | other m => m

end EmbedError

end CodeIndex
