import XeryonShim.Basic
import XeryonShim.Context
import XeryonShim.Pdo
import XeryonShim.Exchange
import XeryonShim.Session
import XeryonShim.Recover
import XeryonShim.Run
import XeryonShim.Legacy
import XeryonShim.Diagnostics
import XeryonShim.Isolation
import XeryonShim.Variants
