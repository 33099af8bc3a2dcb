import Quorum.Cluster.Running
import Quorum.Config.Document
import Quorum.Message.Document
import Quorum.Node.Status
import Quorum.Proofs.Adoption
import Quorum.Proofs.BallotFiles
import Quorum.Proofs.Clients
import Quorum.Proofs.Cursors
import Quorum.Proofs.Deliveries
import Quorum.Proofs.FileLogs
import Quorum.Proofs.Majorities
import Quorum.Proofs.Mirrors
import Quorum.Proofs.Votes
import Quorum.Storage.Drive
import Quorum.Storage.Flaky
import Quorum.Proofs.BackOff
import Quorum.Proofs.Answers
import Quorum.Proofs.Campaigns
import Quorum.Proofs.Followers
import Quorum.Proofs.Appends
import Quorum.Proofs.Grants
import Quorum.Proofs.Leftovers
import Quorum.Proofs.Recoveries
import Quorum.Proofs.Scans
import Quorum.Proofs.Registrations
import Quorum.Proofs.DataDirs
import Quorum.Proofs.Replays
import Quorum.Proofs.Forms
