import RatingService.Test.AnsweredJobs
import RatingService.Test.Rehearsal
import RatingService.Framework.Adjacent
import RatingService.Framework.ExactLedger
import RatingService.Service.ClientBytes
import RatingService.Service.CutIndependence
import RatingService.Service.ExactWinnings
import RatingService.Service.LastRename
import RatingService.Service.ListenerClaim
import RatingService.Service.MpscQueue
import RatingService.Service.ReaderCount
import RatingService.Service.Recovery
import RatingService.Utils.OutputStream
import RatingService.Service.Completion
