import BancuhDns.Decisions.Redirects
import BancuhDns.Engine.Publication
import BancuhDns.QueryLog.History
import BancuhDns.QueryLog.Retention
import BancuhDns.Handler.Snapshot
import BancuhDns.Decisions.Listed
import BancuhDns.Engine.Update
import BancuhDns.Decisions.International
import BancuhDns.Compiler.Capture
import BancuhDns.Compiler.WholeNames
import BancuhDns.Decisions.ListedNames
import BancuhDns.QueryLog.Active
import BancuhDns.Handler
import BancuhDns.IpAddr.RoundTrip
import BancuhDns.Handler.RateKeys
import BancuhDns.Handler.Upstream
import BancuhDns.Admin
import BancuhDns.Admin.Lookup
import BancuhDns.Compiler.Formats
import BancuhDns.Compiler.Wildcards
import BancuhDns.Compiler.CNameCapture
import BancuhDns.Compiler.Zones
import BancuhDns.Compiler.Rewrites
import BancuhDns.Compiler.Comments
import BancuhDns.Compiler.Decoration
import BancuhDns.Handler.Replies
import BancuhDns.Handler.Logged
import BancuhDns.Admin.Page
import BancuhDns.Admin.Shown
import BancuhDns.Decisions.SelfRewrites
import BancuhDns.Names.Wire
import BancuhDns.Server.Log
import BancuhDns.Server.Lists
import BancuhDns.Server.Quota
import BancuhDns.Main.Shutdown
import BancuhDns.Engine.Disk
import BancuhDns.Lists.RoundTrip
import BancuhDns.Server.Meant
import BancuhDns.Server.Steps
import BancuhDns.Server.Progress
import BancuhDns.Main.Validation
