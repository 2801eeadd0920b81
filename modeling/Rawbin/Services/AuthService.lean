import Rawbin.Api.Deps

/-!
# Token pairs

`app/services/auth_service.py`: an access token and a refresh token are issued together, and the
refresh token is recorded by its hash.
-/

namespace Rawbin

variable (E : Env)

def createAccessToken (subject jti : Uuid) : Handler String := do
  let now ← .utcnow
  let iat ← .utcnow
  pure (E.crypto.jwtEncode (accessPayload E.cfg subject now iat jti))

def createRefreshToken (subject jti : Uuid) : Handler String := do
  let now ← .utcnow
  let iat ← .utcnow
  pure (E.crypto.jwtEncode (refreshPayload E.cfg subject now iat jti))

def hashToken (token : String) : String := E.crypto.sha256 token

def storeRefreshToken (tokenId userId : Uuid) (rawToken : String) : Handler Unit := do
  let now ← .utcnow
  .add (.insertRefreshToken tokenId {
    userId := userId
    tokenHash := hashToken E rawToken
    expiresAt := now + days E.cfg.refreshTokenExpireDays
    revoked := false })
  .flush

def issueTokenPair (userId : Uuid) (draws : Draws) : Handler TokenResponse := do
  let accessToken ← createAccessToken E userId draws.accessJti
  let refreshToken ← createRefreshToken E userId draws.refreshJti
  storeRefreshToken E draws.tokenId userId refreshToken
  pure {
    accessToken := accessToken
    refreshToken := refreshToken
    expiresIn := E.cfg.accessTokenExpireMinutes * 60 }

end Rawbin
