import Credis.FrameChecks
import Credis.DeadlineChecks
import Credis.EncoderChecks
import Credis.ExecBlockChecks
import Credis.GeoChecks
import Credis.HandshakeChecks
import Credis.IsolationChecks
import Credis.ListLogChecks
import Credis.PoolChecks
import Credis.RdbChecks
import Credis.RdbSafetyChecks
import Credis.RestartChecks
import Credis.Sha256Checks
import Credis.StrandedChecks
import Credis.ThresholdChecks
import Credis.VersionChecks
import Credis.WaitCountChecks
import Credis.ZaddChecks
