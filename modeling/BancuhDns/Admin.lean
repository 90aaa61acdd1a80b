import BancuhDns.IpAddr
import BancuhDns.QueryLog

/-!
# The admin endpoints

Two pages show a client its own queries, as JSON and as HTML. Both find the log by the
address that the client connects from, and get at it by its text: the address is
printed, the prefix of the IPv4 addresses that stand in IPv6 ones is stripped, and what
is left is parsed again – or else the address is taken as it was.
-/

namespace BancuhDns

namespace Admin

/-- `LogsApiOutput`. -/
structure LogsApiOutput where
  ip : Text
  queries : List QueryLog
  deriving DecidableEq

/-- `normalize_ip` of the admin endpoints, which gives a text. -/
def normalizeIp (addr : SocketAddr) : Text :=
  let ip := addr.ip.display
  (stripPrefix "::ffff:".toList ip).getD ip

/-- The address that both endpoints look up. -/
def lookupIp (addr : SocketAddr) : IpAddr :=
  let ipStr := normalizeIp addr
  (IpAddr.parse ipStr).getD addr.ip

/-- `get_logs_api`. -/
def getLogsApi (now : ℤ) (queryLog : QueryLogStore) (addr : SocketAddr) : LogsApiOutput :=
  ⟨normalizeIp addr, queryLog.getLogs now (lookupIp addr)⟩

/-- `html_escape`. -/
def htmlEscape (s : Text) : Text :=
  replace ['>'] "&gt;".toList (replace ['<'] "&lt;".toList (replace ['&'] "&amp;".toList s))

/-- The row of an entry, whose time is printed by `DateTime::format`. -/
def logRow (formatTime : ℤ → Text) (q : QueryLog) : Text :=
  "<tr><td>".toList ++ formatTime q.queryTime ++ "</td><td>".toList ++ htmlEscape q.question ++
    "</td><td>".toList ++ htmlEscape q.answer ++ "</td></tr>\n".toList

/-- The rows of some entries. -/
def logRows (formatTime : ℤ → Text) (queries : List QueryLog) : Text :=
  queries.flatMap (logRow formatTime)

/-- The page that shows some entries. -/
def logsPage (formatTime : ℤ → Text) (ipStr : Text) (activeIps : ℕ) (queries : List QueryLog) :
    Text :=
  "<!DOCTYPE html>
<html>
<head>
  <title>Bancuh DNS - Query Logs</title>
  <style>
    body \x7b font-family: sans-serif; margin: 20px; \x7d
    table, th, td \x7b border: 1px solid #ccc; border-collapse: collapse; \x7d
    th, td \x7b padding: 8px 12px; text-align: left; \x7d
    th \x7b background: #f5f5f5; \x7d
  </style>
</head>
<body>
  <h2>Bancuh DNS - Query Logs</h2>
  <p>Your IP: <strong>".toList ++ ipStr ++ "</strong></p>
  <p>Active IPs (10 min): <strong>".toList ++ Nat.toDigits 10 activeIps ++ "</strong></p>
  <p>Showing ".toList ++ Nat.toDigits 10 queries.length ++ " queries</p>
  <table>
    <tr><th>Timestamp</th><th>Query</th><th>Answer</th></tr>
    ".toList ++ logRows formatTime queries ++ "
  </table>
</body>
</html>".toList

/-- `get_logs_html`. The log is locked twice, for the entries and for the count; time may
pass in between, and entries may be inserted. -/
def getLogsHtml (formatTime : ℤ → Text) (now now' : ℤ) (queryLog queryLog' : QueryLogStore)
    (addr : SocketAddr) : Text :=
  logsPage formatTime (normalizeIp addr) (queryLog'.activeIps now')
    (queryLog.getLogs now (lookupIp addr))

end Admin

end BancuhDns
